import Fastpath.Model.Listener
import Fastpath.Proofs.Forward
import Fastpath.Proofs.Send

/-!
# Observers on the client, subscriptions on the router

The listener's calls come down to a list of requests, each a message to the
router, and the router takes the messages off the connection one by one. On the
way there nothing is lost: a clean send buffer hands over each request by
itself, and the cuts the socket makes do not show on the other side.

What the two ends make of a request differs. A registration adds the
subscription it names. For a departure `handle_admin_message` asks a second time
whether the subject is that of a registration, which it has just denied, so the
branch that would take the subscription away is never entered. The router holds
a subscription for every registration there ever was, and that is one for each
observer exactly as long as no observer has gone.
-/

namespace Fastpath

open Fastpath.Lib

theorem Field.createData_received (identifier : CString) (type : StorageType) (value : Bytes) :
    (Field.createData identifier type value).received = Field.createData identifier type value := by
  by_cases hsmall : value.length ≤ Field.smallDataMax
  · simp only [Field.createData, if_pos hsmall, Field.received]
  · simp only [Field.createData, if_neg hsmall, Field.received]

theorem Field.createData_wire (identifier : CString) (type : StorageType) (value : Bytes) :
    (Field.createData identifier type value).wire = fieldWire identifier type value := by
  rw [Field.createData]
  split <;> rfl

theorem Field.createData_bounded {identifier : CString} {type : StorageType} {value : Bytes}
    (h : value.length < 2 ^ 32) : (Field.createData identifier type value).Bounded := by
  rw [Field.createData]
  split <;> exact h

namespace MessageListener

/-! ## The listener's messages -/

section Request

variable {topic : CString} (this : UInt64) (subject : CString)

def requestFields : List Field :=
  [.createData (.ofString "subject") .string subject.terminated,
    .scalar (.ofString "id") .uint64 (leBytes 8 this.toNat)]

theorem observerMessage_eq (htopic : topic.length < Message.maxSubjectLength) :
    observerMessage topic this subject =
      { flags := 255
        subject := Message.copyFront [0] topic.terminated
        payload := requestFields this subject
        keys := [(.ofString "subject", 0), (.ofString "id", 1)] } ∧
      Built (observerMessage topic this subject) := by
  have hset : (MutableMessage.setSubject topic Message.new).1 =
      { Message.new with subject := Message.copyFront [0] topic.terminated } := by
    rw [MutableMessage.setSubject, if_pos htopic]
    rfl
  have hbuilt := Built.setSubject topic .new
  rw [hset] at hbuilt
  have hsubject : (MutableMessage.addStringField (.ofString "subject") subject).run
      { Message.new with subject := Message.copyFront [0] topic.terminated } = _ :=
    MutableMessage.add_new (e := .createData (.ofString "subject") .string subject.terminated)
      (by rw [Field.createData_identifier]; decide) rfl
  rw [Field.createData_identifier] at hsubject
  have hbuilt' := Built.addStringField hbuilt hsubject
  have hid : (MutableMessage.addScalarField (.ofString "id") (.uint64 this)).run _ = _ :=
    MutableMessage.add_new (e := .scalar (.ofString "id") .uint64 (leBytes 8 this.toNat))
      (m := { flags := 255
              subject := Message.copyFront [0] topic.terminated
              payload := [.createData (.ofString "subject") .string subject.terminated]
              keys := [(.ofString "subject", 0)] })
      (show (CString.ofString "id").length < 256 by decide) rfl
  have hbuilt'' := Built.addScalarField hbuilt' hid
  rw [observerMessage, hset, hsubject]
  dsimp only
  refine ⟨?_, ?_⟩
  · exact congrArg Prod.snd hid
  · exact (congrArg Prod.snd hid).symm ▸ hbuilt''

theorem observerMessage_subjectString (htopic : topic.length < Message.maxSubjectLength) :
    (observerMessage topic this subject).subjectString = topic := by
  rw [(observerMessage_eq this subject htopic).1, Message.subjectString]
  simp only [Message.copyFront, CString.terminated, List.append_assoc, List.singleton_append]
  exact CString.ofArray_append_nul _ _

theorem observerMessage_length (htopic : topic.length < Message.maxSubjectLength) :
    (observerMessage topic this subject).wire.length = 52 + topic.length + subject.length := by
  rw [Message.length_wire, Message.length_afterLength, observerMessage_subjectString _ _ htopic,
    Message.body, length_bodyWire, (observerMessage_eq this subject htopic).1]
  dsimp only
  rw [requestFields, fieldsWire, fieldsWire, fieldsWire, Field.createData_wire, Field.wire]
  simp only [List.length_append, length_fieldWire, CString.length_terminated, leBytes_length,
    List.length_nil, MsgAddressing.msgLengthOffset, MsgHeader.size, MsgField.size]
  have hsubject : (CString.ofString "subject").length = 7 := by decide
  have hid : (CString.ofString "id").length = 2 := by decide
  omega

theorem observerMessage_deliverable (htopic : topic.length < Message.maxSubjectLength)
    (hfits : subject.length < 2 ^ 31) : (observerMessage topic this subject).Deliverable := by
  obtain ⟨heq, hbuilt⟩ := observerMessage_eq this subject htopic
  have hlen := observerMessage_length this subject htopic
  rw [Message.maxSubjectLength] at htopic
  refine ⟨⟨hbuilt, ?_, ?_, ?_⟩, ?_⟩
  · rw [heq]
    exact List.cons_ne_nil _ _
  · rw [heq]
    refine ⟨Field.createData_bounded ?_, trivial, trivial⟩
    rw [CString.length_terminated]
    omega
  · omega
  · rw [heq]
    show 2 < 2 ^ 32
    decide

theorem observerMessage_getDataField (htopic : topic.length < Message.maxSubjectLength) :
    (Message.new.receivedInto (observerMessage topic this subject)).getDataField
      (.ofString "subject") = .ok (some subject.terminated) := by
  rw [(observerMessage_eq this subject htopic).1, Message.receivedInto]
  dsimp only
  rw [requestFields, receivedAll, receivedAll, receivedAll, Field.createData_received]
  generalize hfield : Field.createData (.ofString "subject") .string subject.terminated = field
  have hvalue : field = .smallData (.ofString "subject") .string subject.terminated ∨
      field = .largeData (.ofString "subject") .string subject.terminated := by
    rw [← hfield, Field.createData]
    split
    · exact .inl rfl
    · exact .inr rfl
  rcases hvalue with rfl | rfl
  · rfl
  · rfl

end Request

/-- One message of the listener to the router. -/
structure Request where
  registers : Bool
  subject : CString

namespace Request

def topic (q : Request) : CString := if q.registers then registerTopic else unregisterTopic

def message (this : UInt64) (q : Request) : Message := observerMessage q.topic this q.subject

theorem topic_lt (q : Request) : q.topic.length < Message.maxSubjectLength := by
  rw [topic]
  split <;> decide

def applyTo (subscriptions : Subscriptions) (q : Request) : Subscriptions :=
  if q.registers then subscriptions.addSubscription q.subject else subscriptions

theorem foldl_applyTo (l : List Request) (subscriptions : Subscriptions) :
    l.foldl applyTo subscriptions = subscriptions ++
      (l.filter Request.registers).map fun q => .new stringHash q.subject := by
  induction l generalizing subscriptions with
  | nil => exact (List.append_nil _).symm
  | cons q l ih =>
      rw [List.foldl_cons, ih, applyTo]
      cases hq : q.registers with
      | true =>
          rw [if_pos rfl, List.filter_cons_of_pos hq, Subscriptions.addSubscription,
            List.append_assoc]
          rfl
      | false =>
          rw [if_neg Bool.false_ne_true,
            List.filter_cons_of_neg (by rw [hq]; exact Bool.false_ne_true)]

end Request

/-! ## The client's side -/

section Client

variable (this : UInt64) (subject : Nat → CString)

/-- The calls whose message the send buffer takes as it is: 73 bytes go with the subject
of a registration, 75 with that of a departure, and it has 1024. -/
def Call.Fits : Call → Prop
  | .add subscriber _ => (subject subscriber).length ≤ 951
  | .remove subscriber => (subject subscriber).length ≤ 949

def request (l : MessageListener) : Call → List Request
  | .add subscriber eventManager =>
      if (l.registerTransport eventManager).1 then [⟨true, subject subscriber⟩] else []
  | .remove subscriber => if subscriber ∈ l.observers then [⟨false, subject subscriber⟩] else []

def requests (l : MessageListener) : List Call → List Request
  | [] => []
  | call :: calls => request subject l call ++ requests (step this subject l call).2 calls

/-- A listener whose transport is up and has nothing left over in its send buffer. -/
structure Ready (l : MessageListener) : Prop where
  connected : l.transport.connected = true
  clean : l.transport.Clean

theorem send_ready {l : MessageListener} (h : l.Ready) {msg : Message}
    (hfits : msg.wire.length ≤ 1024) :
    (l.send msg .sent).Ready ∧
      (l.send msg .sent).transport.handed = l.transport.handed ++ [msg.encoded] ∧
      (l.send msg .sent).observers = l.observers := by
  rw [← Message.encoded_eq] at hfits
  obtain ⟨-, hhanded, hclean⟩ := TCPTransport.sendMessage_sent h.clean h.connected hfits
  refine ⟨⟨?_, hclean⟩, hhanded, rfl⟩
  rw [send, TCPTransport.sendMessage, if_pos h.connected]
  exact h.connected

theorem request_length {q : Request} (h : q.topic.length + q.subject.length ≤ 972) :
    (q.message this).wire.length ≤ 1024 := by
  rw [Request.message, observerMessage_length _ _ q.topic_lt]
  omega

/-- A call sends nothing and changes nothing, or a registration and gains an observer, or
a departure and loses one. -/
theorem step_ready {l : MessageListener} (h : l.Ready) {call : Call} (hfits : call.Fits subject) :
    let l' := (step this subject l call).2
    l'.Ready ∧
      l'.transport.handed = l.transport.handed ++
        (request subject l call).map (fun q => (q.message this).encoded) ∧
      ((request subject l call = [] ∧ l'.observers = l.observers) ∨
        (∃ i, request subject l call = [⟨true, subject i⟩] ∧ l'.observers = l.observers ++ [i]) ∨
        (∃ i ∈ l.observers, request subject l call = [⟨false, subject i⟩] ∧
          l'.observers = l.observers.erase i)) := by
  cases call with
  | add subscriber eventManager =>
      obtain ⟨registered, current, hregister⟩ : ∃ registered current,
          l.registerTransport eventManager = (registered, { l with eventManager := current }) := by
        rw [registerTransport]
        split
        · exact ⟨_, _, rfl⟩
        · exact ⟨_, l.eventManager, rfl⟩
      rw [request, hregister]
      cases registered with
      | true =>
          have hlen := request_length this (q := ⟨true, subject subscriber⟩) (by
            have htopic : registerTopic.length = 21 := by decide
            have hsubject : (subject subscriber).length ≤ 951 := hfits
            show registerTopic.length + (subject subscriber).length ≤ 972
            omega)
          have hready : Ready ⟨l.transport, current, l.observers ++ [subscriber]⟩ :=
            ⟨h.connected, h.clean⟩
          obtain ⟨hready', hhanded, hobservers⟩ := send_ready hready hlen
          have hstep : (step this subject l (.add subscriber eventManager)).2 =
              send (Request.message this ⟨true, subject subscriber⟩) .sent
                ⟨l.transport, current, l.observers ++ [subscriber]⟩ := by
            rw [step, addObserver, hregister]
            dsimp only
            rw [if_pos h.connected]
            rfl
          rw [hstep]
          exact ⟨hready', hhanded, .inr (.inl ⟨subscriber, rfl, hobservers⟩)⟩
      | false =>
          have hstep : (step this subject l (.add subscriber eventManager)).2 =
              { l with eventManager := current } := by
            rw [step, addObserver, hregister]
          rw [hstep]
          exact ⟨⟨h.connected, h.clean⟩, (List.append_nil _).symm, .inl ⟨rfl, rfl⟩⟩
  | remove subscriber =>
      by_cases hmem : subscriber ∈ l.observers
      · have hlen := request_length this (q := ⟨false, subject subscriber⟩) (by
          have htopic : unregisterTopic.length = 23 := by decide
          have hsubject : (subject subscriber).length ≤ 949 := hfits
          show unregisterTopic.length + (subject subscriber).length ≤ 972
          omega)
        obtain ⟨hready', hhanded, -⟩ := send_ready h hlen
        have hstep : (step this subject l (.remove subscriber)).2 =
            { send (Request.message this ⟨false, subject subscriber⟩) .sent l with
              observers := l.observers.erase subscriber } := by
          rw [step, removeObserver, if_pos hmem]
          rfl
        rw [hstep, request, if_pos hmem]
        exact ⟨⟨hready'.connected, hready'.clean⟩, hhanded,
          .inr (.inr ⟨subscriber, hmem, rfl, rfl⟩)⟩
      · have hstep : (step this subject l (.remove subscriber)).2 = l := by
          rw [step, removeObserver, if_neg hmem]
        rw [hstep, request, if_neg hmem]
        exact ⟨h, (List.append_nil _).symm, .inl ⟨rfl, rfl⟩⟩

/-- A `removeObserver` that finds its subscriber. -/
def Removes (l : MessageListener) : Call → Prop
  | .add _ _ => False
  | .remove subscriber => subscriber ∈ l.observers

def NothingRemoved (l : MessageListener) : List Call → Prop
  | [] => True
  | call :: calls => ¬ Removes l call ∧ NothingRemoved (step this subject l call).2 calls

/-- Nothing is removed exactly when every request is a registration. -/
theorem nothingRemoved_iff (l : MessageListener) (calls : List Call) :
    NothingRemoved this subject l calls ↔
      ∀ q ∈ requests this subject l calls, q.registers = true := by
  induction calls generalizing l with
  | nil => exact ⟨fun _ q hq => absurd hq List.not_mem_nil, fun _ => trivial⟩
  | cons call calls ih =>
      rw [NothingRemoved, requests, List.forall_mem_append, ih]
      refine and_congr_left fun _ => ?_
      cases call with
      | add subscriber eventManager =>
          refine ⟨fun _ q hq => ?_, fun _ hadd => hadd⟩
          rw [request] at hq
          split at hq
          · rw [List.mem_singleton.mp hq]
          · exact absurd hq List.not_mem_nil
      | remove subscriber =>
          rw [request, Removes]
          by_cases hmem : subscriber ∈ l.observers
          · simp [hmem]
          · simp [hmem]

/-- What a run hands to the socket, and the observers it leaves: counted against its
requests in any case, and equal to them if they are all registrations. -/
theorem run_ready {l : MessageListener} (h : l.Ready) {calls : List Call}
    (hfits : ∀ call ∈ calls, call.Fits subject) :
    let l' := run this subject l calls
    let sent := requests this subject l calls
    l'.transport.handed = l.transport.handed ++ sent.map (fun q => (q.message this).encoded) ∧
      l'.observers.length + (sent.filter fun q => !q.registers).length =
        l.observers.length + (sent.filter Request.registers).length ∧
      ((∀ q ∈ sent, q.registers = true) →
        l'.observers.map subject = l.observers.map subject ++ sent.map Request.subject) := by
  induction calls generalizing l with
  | nil =>
      refine ⟨(List.append_nil _).symm, rfl, fun _ => (List.append_nil _).symm⟩
  | cons call calls ih =>
      intro l' sent
      obtain ⟨hready, hhanded, hstep⟩ := step_ready this subject h (hfits call List.mem_cons_self)
      obtain ⟨hhanded', hcount', hall'⟩ :=
        ih hready fun c hc => hfits c (List.mem_cons_of_mem _ hc)
      refine ⟨?_, ?_, ?_⟩
      · show (run this subject (step this subject l call).2 calls).transport.handed = _
        rw [hhanded', hhanded, List.append_assoc, ← List.map_append]
        rfl
      · show (run this subject (step this subject l call).2 calls).observers.length +
          ((request subject l call ++ _).filter _).length = _ +
          ((request subject l call ++ _).filter _).length
        rw [List.filter_append, List.filter_append, List.length_append, List.length_append]
        rcases hstep with ⟨hq, hobs⟩ | ⟨i, hq, hobs⟩ | ⟨i, hi, hq, hobs⟩
        · rw [hobs] at hcount'
          rw [hq]
          simpa using hcount'
        · rw [hobs, List.length_append, List.length_singleton] at hcount'
          rw [hq]
          simp only [Bool.not_true, Bool.false_eq_true, not_false_eq_true, List.filter_nil,
            List.filter_cons_of_pos, List.filter_cons_of_neg, List.length_cons, List.length_nil]
          omega
        · have hpos := List.length_pos_of_mem hi
          rw [hobs, List.length_erase_of_mem hi] at hcount'
          rw [hq]
          simp only [Bool.not_false, Bool.false_eq_true, not_false_eq_true, List.filter_nil,
            List.filter_cons_of_pos, List.filter_cons_of_neg, List.length_cons, List.length_nil]
          omega
      · intro hregisters
        obtain ⟨hthis, hlater⟩ := List.forall_mem_append.mp hregisters
        show (run this subject (step this subject l call).2 calls).observers.map subject =
          _ ++ (request subject l call ++ _).map Request.subject
        rw [hall' hlater, List.map_append, ← List.append_assoc]
        congr 1
        rcases hstep with ⟨hq, hobs⟩ | ⟨i, hq, hobs⟩ | ⟨i, -, hq, -⟩
        · rw [hq, hobs]
          exact (List.append_nil _).symm
        · rw [hq, hobs, List.map_append]
          rfl
        · rw [hq] at hthis
          exact absurd (hthis _ List.mem_cons_self) Bool.false_ne_true

end Client

end MessageListener

/-! ## The router's side -/

namespace Bootstrap

/-- An image addressed to the router is decoded, and its message handled. -/
theorem processBuffer_admin (source : Nat) {m : Message} (hm : m.Deliverable)
    (hadmin : (Subject.new stringHash m.subjectString).isAdmin = true) {s : Routing}
    {subscriptions : Subscriptions}
    (hhandled : PeerConnection.handleAdminMessage (.new stringHash m.subjectString)
      (Message.new.receivedInto m) (s.router.peer source).subscriptions = .ok subscriptions)
    {t : Bytes} (h : s.storage.rest = m.wire ++ t) :
    (processBuffer source).run s =
      (.ok .complete,
        ⟨s.router.update source fun c => { c with subscriptions := subscriptions },
          (s.storage.mark.advanceRead m.wire.length).mark⟩) := by
  have hdecode := decode_wire hm.1 hm.2 Message.new (b := .ofBytes m.wire) (t := [])
    (List.append_nil _).symm
  have hrun : (processAdmin source (.new stringHash m.subjectString) (.ofBytes m.wire)).run
      ⟨s.router, s.storage.mark.advanceRead m.wire.length⟩ =
      (.ok .complete, ⟨s.router.update source fun c => { c with subscriptions := subscriptions },
        s.storage.mark.advanceRead m.wire.length⟩) := by
    simp only [processAdmin, hdecode, hhandled]
  obtain ⟨hin, hstatus, hlength, hsubject, htake⟩ := addressed_wire hm.1.built hm.1.fits h
  rw [processBuffer_addressed source hin hstatus hlength hsubject, hadmin, if_pos rfl, htake,
    Exec.bind_ok hrun]
  rfl

end Bootstrap

namespace MessageListener

open Bootstrap

theorem Request.handled (this : UInt64) (q : Request) (subscriptions : Subscriptions) :
    PeerConnection.handleAdminMessage (.new stringHash (q.message this).subjectString)
      (Message.new.receivedInto (q.message this)) subscriptions =
        .ok (q.applyTo subscriptions) := by
  have hsubject : (q.message this).subjectString = q.topic :=
    observerMessage_subjectString this q.subject q.topic_lt
  rw [hsubject, PeerConnection.handleAdminMessage, Request.applyTo]
  cases hq : q.registers with
  | true =>
      have htopic : (Subject.new stringHash q.topic).subjectHash =
          PeerConnection.registerObserver.subjectHash := by
        rw [Request.topic, hq]
        rfl
      have hread : CString.readFrom q.subject.terminated = .ok q.subject := by
        rw [CString.terminated, CString.readFrom, if_pos (by simp), CString.ofArray_append_nul]
      have hfield := observerMessage_getDataField this q.subject q.topic_lt
      rw [if_pos htopic, Request.message, hfield]
      dsimp only
      rw [if_neg (by rw [CString.length_terminated]; omega), hread]
      rfl
  | false =>
      -- neither comparison holds, for both are with the registration's subject
      have htopic : (Subject.new stringHash q.topic).subjectHash ≠
          PeerConnection.registerObserver.subjectHash := by
        rw [Request.topic, hq]
        decide
      rw [if_neg htopic, if_neg htopic]
      rfl

theorem Request.admin (this : UInt64) (q : Request) :
    (Subject.new stringHash (q.message this).subjectString).isAdmin = true := by
  rw [Request.message, observerMessage_subjectString this q.subject q.topic_lt, Request.topic]
  split <;> decide

section Router

variable {this : UInt64} {source : Nat}

/-- What a message to the router does to it, if it is handled. -/
def effect (source : Nat) (r : Bootstrap) (m : Message) : Bootstrap :=
  match PeerConnection.handleAdminMessage (.new stringHash m.subjectString)
      (Message.new.receivedInto m) (r.peer source).subscriptions with
  | .ok subscriptions => r.update source fun c => { c with subscriptions := subscriptions }
  | .error _ => r

theorem effect_buffer (r : Bootstrap) (m : Message) :
    ((effect source r m).peer source).buffer = (r.peer source).buffer := by
  rw [effect]
  split
  · rw [update_peer, if_pos rfl]
  · rfl

theorem foldl_effect (done : List Request) (r : Bootstrap) :
    (((done.map (Request.message this)).foldl (effect source) r).peer source).subscriptions =
      done.foldl Request.applyTo (r.peer source).subscriptions := by
  induction done generalizing r with
  | nil => rfl
  | cons q done ih =>
      rw [List.map_cons, List.foldl_cons, List.foldl_cons, ih, effect, q.handled this]
      dsimp only
      rw [update_peer, if_pos rfl]

/-- A connection on which the router has handled the first of the requests `sent`, and
holds the beginning of the next. -/
def Registers (this : UInt64) (source : Nat) (sent : List Request) (future : Bytes)
    (r : Bootstrap) : Prop :=
  (r.peer source).buffer.Sound ∧ ∃ done todo, sent = done ++ todo ∧
    (r.peer source).subscriptions = done.foldl Request.applyTo [] ∧
    (r.peer source).buffer.bytes ++ future =
      (todo.map (Request.message this)).flatMap Message.wire ∧
    Unfinished Message.wire (todo.map (Request.message this)) (r.peer source).buffer.bytes

theorem Registers.drain {sent : List Request}
    (hsent : ∀ q ∈ sent, (q.message this).Deliverable) {data future : Bytes}
    (hdata : data.length ≤ mtuSize) {r : Bootstrap}
    (h : Registers this source sent (data ++ future) r) :
    ∃ r', (Bootstrap.drain source).run
        (r.update source fun c => { c with buffer := c.buffer.fill data }) = (.ok true, r') ∧
      Registers this source sent future r' := by
  obtain ⟨hsound, done, todo, hsplit, hsubs, hstream, -⟩ := h
  obtain ⟨hfilled, hsound'⟩ := MessageBuffer.fill_bytes hsound data hdata
  generalize hr₁ : (r.update source fun c => { c with buffer := c.buffer.fill data }) = r₁
  have hpeer : r₁.peer source =
      { r.peer source with buffer := (r.peer source).buffer.fill data } := by
    rw [← hr₁, update_peer, if_pos rfl]
  have hdeliverable : ∀ q ∈ todo, (q.message this).Deliverable := by
    intro q hq
    exact hsent q (by rw [hsplit]; exact List.mem_append_right _ hq)
  have hstream₁ : (r₁.peer source).buffer.bytes ++ future =
      (todo.map (Request.message this)).flatMap Message.wire := by
    rw [hpeer, ← hstream, ← List.append_assoc, ← hfilled]
  have hround : ∀ m ∈ todo.map (Request.message this), ∀ (s : Routing) t,
      s.storage.rest = m.wire ++ t → (processBuffer source).run s =
        (.ok .complete,
          ⟨effect source s.router m, (s.storage.mark.advanceRead m.wire.length).mark⟩) := by
    intro m hm s t hrest
    obtain ⟨q, hq, rfl⟩ := List.mem_map.mp hm
    have hhandled := q.handled this (s.router.peer source).subscriptions
    rw [processBuffer_admin source (hdeliverable q hq) (q.admin this) hhandled hrest, effect,
      hhandled]
  have hfits : ∀ m ∈ todo.map (Request.message this), m.wire.length < 2 ^ 64 := by
    intro m hm
    obtain ⟨q, hq, rfl⟩ := List.mem_map.mp hm
    exact (hdeliverable q hq).1.fits
  obtain ⟨done', rest, r', hall, hrun, ⟨n, hr'⟩, hfuture, hu⟩ :=
    drain_messages (effect source) effect_buffer hfits hround hstream₁
  obtain ⟨handled, left, hleft, rfl, rfl⟩ := List.map_eq_append_iff.mp hall
  have hbuffer := foldl_buffer (i := source) effect_buffer (handled.map (Request.message this)) r₁
  refine ⟨r', hrun, ?_, done ++ handled, left, ?_, ?_, hfuture, hu⟩
  · rw [hr', update_peer, if_pos rfl]
    dsimp only
    rw [hbuffer, hpeer]
    exact (MessageBuffer.eraseFront_bytes n).2 hsound'
  · rw [hsplit, hleft, List.append_assoc]
  · rw [hr', update_peer, if_pos rfl]
    dsimp only
    rw [foldl_effect, hpeer, List.foldl_append, ← hsubs]

theorem Registers.dataHandler {sent : List Request}
    (hsent : ∀ q ∈ sent, (q.message this).Deliverable) {reads : List Bytes}
    (hreads : ∀ data ∈ reads, data.length ≤ mtuSize) {future : Bytes} {r : Bootstrap}
    (h : Registers this source sent (reads.flatten ++ future) r) :
    ∃ r', (Bootstrap.dataHandler source false reads).run r = (.ok (), r') ∧
      Registers this source sent future r' := by
  induction reads generalizing r with
  | nil =>
      refine ⟨_, rfl, ?_⟩
      obtain ⟨hsound, rest⟩ := h
      obtain ⟨hfilled, hsound'⟩ := MessageBuffer.fill_bytes hsound [] (Nat.zero_le _)
      rw [List.append_nil] at hfilled
      rw [Registers, update_peer, if_pos rfl]
      dsimp only
      rw [hfilled]
      exact ⟨hsound', rest⟩
  | cons data reads ih =>
      rw [List.flatten_cons, List.append_assoc] at h
      obtain ⟨r₁, hdrain, h₁⟩ := h.drain hsent (hreads data List.mem_cons_self)
      obtain ⟨r', hrun, h'⟩ := ih (fun d hd => hreads d (List.mem_cons_of_mem _ hd)) h₁
      refine ⟨r', ?_, h'⟩
      rw [Bootstrap.dataHandler, Exec.bind_ok (Exec.modify_run _ _), Exec.bind_ok hdrain]
      exact hrun

theorem Registers.route {sent : List Request}
    (hsent : ∀ q ∈ sent, (q.message this).Deliverable) {calls : List (List Bytes)}
    (hreads : ∀ reads ∈ calls, ∀ data ∈ reads, data.length ≤ mtuSize) {r : Bootstrap}
    (h : Registers this source sent calls.flatten.flatten r) :
    ∃ r', (Bootstrap.route (calls.map fun reads => (source, reads))).run r = (.ok (), r') ∧
      Registers this source sent [] r' := by
  induction calls generalizing r with
  | nil => exact ⟨r, rfl, h⟩
  | cons reads calls ih =>
      rw [List.flatten_cons, List.flatten_append] at h
      obtain ⟨r₁, hcall, h₁⟩ := h.dataHandler hsent (hreads reads List.mem_cons_self)
      obtain ⟨r', hrun, h'⟩ := ih (fun c hc => hreads c (List.mem_cons_of_mem _ hc)) h₁
      refine ⟨r', ?_, h'⟩
      rw [List.map_cons, Bootstrap.route, Exec.bind_ok hcall]
      exact hrun

end Router

/-! ## Both sides -/

/-- The two ends hold the same: the subscriptions of the connection are those of the
observers' subjects, as often as there are observers, and so the connection is
interested in what some observer is. -/
structure Agree (subject : Nat → CString) (l : MessageListener) (c : PeerConnection) : Prop where
  patterns : c.subscriptions.Perm (l.observers.map fun i => .new stringHash (subject i))
  interest : ∀ s, c.subscriptions.isInterested s =
    l.observers.any fun i => (Subscription.new stringHash (subject i)).matchesSubject s

theorem agree_of_patterns {subject : Nat → CString} {l : MessageListener} {c : PeerConnection}
    (h : c.subscriptions = (l.observers.map subject).map (Subscription.new stringHash)) :
    Agree subject l c := by
  rw [List.map_map] at h
  refine ⟨?_, ?_⟩
  · rw [h]
    exact List.Perm.refl _
  · intro s
    rw [h, Subscriptions.isInterested, List.any_map]
    rfl

theorem new_ready (heap : Nat → Nat → UInt8) : (new heap).Ready :=
  ⟨rfl, TCPTransport.new_clean heap⟩

theorem requests_deliverable (this : UInt64) {subject : Nat → CString} {l : MessageListener}
    {calls : List Call} (hfits : ∀ call ∈ calls, call.Fits subject) :
    ∀ q ∈ requests this subject l calls, (q.message this).Deliverable := by
  induction calls generalizing l with
  | nil => exact fun q hq => absurd hq List.not_mem_nil
  | cons call calls ih =>
      intro q hq
      rcases List.mem_append.mp hq with hq | hq
      · have hthis := hfits call List.mem_cons_self
        have hlen : q.subject.length ≤ 951 := by
          cases call with
          | add subscriber eventManager =>
              rw [request] at hq
              split at hq
              · rw [List.mem_singleton.mp hq]
                exact hthis
              · exact absurd hq List.not_mem_nil
          | remove subscriber =>
              rw [request] at hq
              split at hq
              · rw [List.mem_singleton.mp hq]
                exact le_trans hthis (by decide)
              · exact absurd hq List.not_mem_nil
        exact observerMessage_deliverable this q.subject q.topic_lt (by omega)
      · exact ih (fun c hc => hfits c (List.mem_cons_of_mem _ hc)) q hq

section Agreement

variable (this : UInt64) (subject : Nat → CString) (heap : Nat → Nat → UInt8)
  {calls : List Call} {source : Nat} {r : Bootstrap} {routerHeap : Nat → Nat → UInt8}
  {reads : List (List Bytes)}

/-- However the requests of a run arrive at a connection just accepted, the router
handles them all and holds the subscriptions of the registrations among them. -/
theorem route_requests (hfits : ∀ call ∈ calls, call.Fits subject)
    (hfresh : r.peer source = PeerConnection.new routerHeap)
    (hreads : ∀ call ∈ reads, ∀ data ∈ call, data.length ≤ 1500)
    (harrived : reads.flatten.flatten =
      (run this subject (new heap) calls).transport.handed.flatten) :
    ∃ r', (route (reads.map fun call => (source, call))).run r = (.ok (), r') ∧
      (r'.peer source).subscriptions =
        ((requests this subject (new heap) calls).filter Request.registers).map
          fun q => .new stringHash q.subject := by
  have hhanded := (run_ready this subject (new_ready heap) hfits).1
  have hdeliverable := requests_deliverable this (l := new heap) hfits
  generalize requests this subject (new heap) calls = sent at *
  have hbytes : reads.flatten.flatten = (sent.map (Request.message this)).flatMap Message.wire := by
    rw [harrived, hhanded, List.flatMap_def, List.map_map]
    simp only [Message.encoded_eq]
    rfl
  have hstart : Registers this source sent reads.flatten.flatten r := by
    rw [Registers, hfresh]
    exact ⟨MessageBuffer.new_sound _ _, [], sent, rfl, rfl, hbytes,
      .nil Message.wire_ne_nil _⟩
  obtain ⟨r', hrun, -, done, todo, hsplit, hsubs, hrest, hu⟩ := hstart.route hdeliverable hreads
  have hnone : todo = [] := by
    rw [List.append_nil] at hrest
    exact List.map_eq_nil_iff.mp (hu.eq_nil hrest).1
  rw [hnone, List.append_nil] at hsplit
  rw [← hsplit, Request.foldl_applyTo, List.nil_append] at hsubs
  exact ⟨r', hrun, hsubs⟩

/-- The router then agrees with the listener if and only if no call of the run removed an
observer. -/
theorem agree_iff_nothingRemoved (hfits : ∀ call ∈ calls, call.Fits subject)
    (hfresh : r.peer source = PeerConnection.new routerHeap)
    (hreads : ∀ call ∈ reads, ∀ data ∈ call, data.length ≤ 1500)
    (harrived : reads.flatten.flatten =
      (run this subject (new heap) calls).transport.handed.flatten) :
    ∃ r', (route (reads.map fun call => (source, call))).run r = (.ok (), r') ∧
      (Agree subject (run this subject (new heap) calls) (r'.peer source) ↔
        NothingRemoved this subject (new heap) calls) := by
  obtain ⟨r', hrun, hsubs⟩ := route_requests this subject heap hfits hfresh hreads harrived
  obtain ⟨-, hcount, hall⟩ := run_ready this subject (new_ready heap) hfits
  refine ⟨r', hrun, ?_⟩
  rw [nothingRemoved_iff]
  generalize requests this subject (new heap) calls = sent at *
  constructor
  · -- as many subscriptions as observers means that no departure was sent
    intro hagree q hq
    have hlen := hagree.patterns.length_eq
    rw [hsubs, List.length_map, List.length_map] at hlen
    have hdeparted : (sent.filter fun q => !q.registers) = [] := by
      apply List.eq_nil_of_length_eq_zero
      have hempty : (new heap).observers.length = 0 := rfl
      omega
    have hnot := List.filter_eq_nil_iff.mp hdeparted q hq
    cases hq' : q.registers with
    | true => rfl
    | false => exact absurd (by rw [hq']; rfl) hnot
  · intro hregisters
    have hobservers : (run this subject (new heap) calls).observers.map subject =
        sent.map Request.subject := hall hregisters
    apply agree_of_patterns
    rw [hsubs, List.filter_eq_self.mpr hregisters, hobservers, List.map_map]
    rfl

end Agreement

/-- The bytes of a run of few short requests, in one read. -/
theorem handed_length (this : UInt64) {subject : Nat → CString} (heap : Nat → Nat → UInt8)
    {calls : List Call} (hfits : ∀ call ∈ calls, call.Fits subject) {n : Nat}
    (hn : ((requests this subject (new heap) calls).map
      fun q => 52 + q.topic.length + q.subject.length).sum = n) :
    (run this subject (new heap) calls).transport.handed.flatten.length = n := by
  have hlen : ∀ q : Request,
      (q.message this).encoded.length = 52 + q.topic.length + q.subject.length := by
    intro q
    rw [Message.encoded_eq]
    exact observerMessage_length this q.subject q.topic_lt
  have hhanded := (run_ready this subject (new_ready heap) hfits).1
  have hempty : (new heap).transport.handed = [] := rfl
  rw [hempty, List.nil_append] at hhanded
  rw [hhanded, ← hn, List.length_flatten, List.map_map]
  simp only [Function.comp_def, hlen]

theorem Call.fits_of_short {subject : Nat → CString} (h : ∀ i, (subject i).length ≤ 949)
    (call : Call) : call.Fits subject := by
  cases call with
  | add subscriber eventManager => exact (h subscriber).trans (by decide)
  | remove subscriber => exact h subscriber

theorem one_read {bytes : Bytes} (h : bytes.length ≤ 1500) :
    ∀ call ∈ ([[bytes]] : List (List Bytes)), ∀ data ∈ call, data.length ≤ 1500 := by
  intro call hcall data hdata
  rw [List.mem_singleton.mp hcall] at hdata
  rw [List.mem_singleton.mp hdata]
  exact h

/-- Two observers of one subject, and a stranger who is not removed. -/
theorem two_observers_agree :
    let subject : Nat → CString := fun _ => .ofString "a.*"
    let calls : List Call := [.add 1 0, .add 2 0, .remove 3]
    let l := run 4096 subject (new fun _ _ => 0) calls
    let reads : List (List Bytes) := [[l.transport.handed.flatten]]
    ∃ r', (route (reads.map fun call => (1, call))).run
        (start [1] (fun _ => []) fun _ _ => 0) = (.ok (), r') ∧
      (Agree subject l (r'.peer 1) ↔
        NothingRemoved 4096 subject (new fun _ _ => 0) calls) := by
  intro subject calls l reads
  have hfits : ∀ call ∈ calls, call.Fits subject := fun call _ =>
    Call.fits_of_short (fun _ => by decide) call
  have hlen := handed_length 4096 (fun _ _ => 0) hfits (n := 152) rfl
  have hfresh : (start [1] (fun _ => []) fun _ _ => 0).peer 1 = .new fun _ _ => 0 := rfl
  exact agree_iff_nothingRemoved 4096 subject (fun _ _ => 0) hfits hfresh
    (one_read (by rw [hlen]; decide)) (List.append_nil _)

/-- An observer comes and goes, and the router goes on forwarding its subject. -/
theorem removed_observer_stays :
    let subject : Nat → CString := fun _ => .ofString "a.*"
    let calls : List Call := [.add 1 0, .remove 1]
    let l := run 4096 subject (new fun _ _ => 0) calls
    let reads : List (List Bytes) := [[l.transport.handed.flatten]]
    ∃ r', (route (reads.map fun call => (1, call))).run
        (start [1] (fun _ => []) fun _ _ => 0) = (.ok (), r') ∧
      l.observers = [] ∧
      (r'.peer 1).subscriptions.isInterested (.new stringHash (.ofString "a.b")) = true ∧
      ¬ Agree subject l (r'.peer 1) := by
  intro subject calls l reads
  have hfits : ∀ call ∈ calls, call.Fits subject := fun call _ =>
    Call.fits_of_short (fun _ => by decide) call
  have hlen := handed_length 4096 (fun _ _ => 0) hfits (n := 154) rfl
  have hfresh : (start [1] (fun _ => []) fun _ _ => 0).peer 1 = .new fun _ _ => 0 := rfl
  have hreads : ∀ call ∈ reads, ∀ data ∈ call, data.length ≤ 1500 :=
    one_read (by rw [hlen]; decide)
  obtain ⟨r', hrun, hsubs⟩ := route_requests 4096 subject (fun _ _ => 0) hfits hfresh hreads
    (List.append_nil _)
  have hone : (r'.peer 1).subscriptions = [.new stringHash (.ofString "a.*")] := hsubs
  have hnone : l.observers = [] := rfl
  refine ⟨r', hrun, hnone, ?_, ?_⟩
  · rw [hone]
    decide
  · intro hagree
    have hlen := hagree.patterns.length_eq
    rw [hone, hnone] at hlen
    cases hlen

end MessageListener

end Fastpath
