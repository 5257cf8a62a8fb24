import Fastpath.Proofs.Hub

/-!
# Who receives what

A message for others arrives in one of two ways, and goes out in one of two ways
to each connection that is interested. Three of the four pairs work. A message
that came from a socket has no shared pointer, so the wrapper has none to give,
and what is pushed on the queue of a client in shared memory is a null pointer.

The pair of shared memory on both sides has a limit of its own, the capacity of
the client's queue.
-/

namespace Fastpath

open Fastpath.Lib

namespace Hub

/-! ## Arrival -/

/-- Unread bytes with a message for others in front. -/
structure Ordinary (r : Bytes) : Prop where
  complete : (frameStatus r).1 = .complete
  terminated : (0 : UInt8) ∈ r.drop MsgAddressing.size
  ordinary : (Bootstrap.subjectAt r).isAdmin = false

/-- The image of every message the router passes on is one. -/
theorem ordinary_wire {m : Message} (hm : m.Forwardable) :
    Ordinary m.wire ∧ 0 < subjectLengthAt m.wire := by
  obtain ⟨-, hstatus, hlength, hsubject, -⟩ := Bootstrap.addressed_wire hm.built hm.fits
    (s := .ofBytes m.wire) (t := []) (List.append_nil _).symm
  have hnul : (0 : UInt8) ∈ m.wire.drop MsgAddressing.size := by
    by_contra hnone
    rw [ByteStorage.rest_ofBytes, CString.readFrom, if_neg hnone] at hsubject
    cases hsubject
  rw [ByteStorage.rest_ofBytes, CString.readFrom, if_pos hnul] at hsubject
  refine ⟨⟨congrArg Prod.fst hstatus, hnul, ?_⟩, hlength⟩
  rw [Bootstrap.subjectAt, Except.ok.inj hsubject]
  exact hm.ordinary

/-- On a socket, the handler is called with the bytes of the message and no pointer. -/
theorem processBuffer_ordinary (source : Nat) {s : Routing} (hin : s.storage.InRange)
    (h : Ordinary s.storage.rest) (hlength : 0 < subjectLengthAt s.storage.rest) :
    ∃ b, (processBuffer source).run s =
      (.ok .complete,
        ⟨s.hub.messageHandler source (Bootstrap.subjectAt s.storage.rest)
          (.ofBuffer (.ofBytes (s.storage.rest.take (frameStatus s.storage.rest).2))), b⟩) := by
  have hstatus : frameStatus s.storage.rest = (.complete, (frameStatus s.storage.rest).2) :=
    Prod.ext h.complete rfl
  obtain ⟨flags, t, haddress, hreset⟩ := addressing_run hin hstatus
  have hsegment : (onStorage (Bootstrap.takeSegment (frameStatus s.storage.rest).2)).run
      ⟨s.hub, s.storage.mark⟩ =
      (.ok (.ofBytes (s.storage.rest.take (frameStatus s.storage.rest).2)),
        ⟨s.hub, s.storage.mark.advanceRead (frameStatus s.storage.rest).2⟩) := rfl
  rw [processBuffer, Exec.bind_ok (mark_run s), Exec.bind_ok haddress]
  dsimp only
  rw [Exec.bind_ok hreset, if_pos hlength, Exec.bind_ok (readSubject_run h.terminated),
    Exec.bind_ok hsegment, h.ordinary]
  exact ⟨_, rfl⟩

/-- In shared memory, it is called with the pointer too. -/
theorem pointerCallback_ordinary (source : Nat) (h : Hub) {data : Bytes} (hdata : Ordinary data) :
    (pointerCallback source (.ofBytes data) (some data)).run h =
      (.ok (), h.messageHandler source (Bootstrap.subjectAt data)
        ⟨.ofBytes data, some data⟩) := by
  have hrun := processPointer_addressed source (some data) (s := ⟨h, .ofBytes data⟩)
    (n := (frameStatus data).2) (Nat.zero_le _) (Prod.ext hdata.complete rfl) hdata.terminated
  rw [show Bootstrap.subjectAt (ByteStorage.ofBytes data).rest = Bootstrap.subjectAt data from rfl,
    hdata.ordinary] at hrun
  rw [pointerCallback, Exec.zoom]
  dsimp only
  rw [hrun]
  rfl

/-! ## Receipt -/

/-- What a connection sends through has taken `data`: the socket in bytes, the queue as a
pointer to them. -/
def Link.Receives (data : Bytes) : Link → Link → Prop
  | .tcp sent, after => after = .tcp (sent ++ data)
  | .shm queue, after => ∃ queue', after = .shm queue' ∧
      queue'.objectList.items = queue.objectList.items ++ [some data]

/-- Every connection that is interested has received `data`. -/
def Delivered (subject : Subject UInt64) (data : Bytes) (h h' : Hub) : Prop :=
  ∀ i ∈ h.connections, (h.peer i).subscriptions.isInterested subject = true →
    Link.Receives data (h.peer i).link (h'.peer i).link

theorem delivered_messageHandler (source : Nat) (subject : Subject UInt64) (data : Bytes)
    (wrapper : MessageWrapper) {h : Hub} (hnodup : h.connections.Nodup) :
    Delivered subject data h (h.messageHandler source subject wrapper) ↔
      ∀ i ∈ h.connections, (h.peer i).subscriptions.isInterested subject = true →
        Link.Receives data (h.peer i).link ((h.peer i).link.sendBuffer wrapper) := by
  refine forall_congr' fun i => forall_congr' fun hi => forall_congr' fun hinterest => ?_
  rw [messageHandler_peer source subject wrapper hnodup hi, offered, if_pos hinterest]

/-- A queue has received `data` if and only if there was room, and the pointer was one to
them. -/
theorem receives_shm (data : Bytes) (queue : SharedMemoryBuffer) (wrapper : MessageWrapper) :
    Link.Receives data (.shm queue) ((Link.shm queue).sendBuffer wrapper) ↔
      ¬ queue.objectList.Full ∧ wrapper.getSharedPtrBuffer = some data := by
  rw [← Fifo.items_push_eq]
  refine ⟨fun ⟨queue', heq, hitems⟩ => ?_, fun hitems => ⟨_, rfl, hitems⟩⟩
  cases heq
  exact hitems

theorem receives_tcp (data sent : Bytes) (wrapper : MessageWrapper)
    (h : wrapper.getEncodedBuffer.bytes = data) :
    Link.Receives data (.tcp sent) ((Link.tcp sent).sendBuffer wrapper) := by
  rw [Link.sendBuffer, h]
  rfl

/-! ## Delivery -/

/-- The message in front of a socket's bytes reaches whoever is interested in it. -/
def DeliversBuffer (source : Nat) (s : Routing) : Prop :=
  ∃ s', (processBuffer source).run s = (.ok .complete, s') ∧
    Delivered (Bootstrap.subjectAt s.storage.rest)
      (s.storage.rest.take (frameStatus s.storage.rest).2) s.hub s'.hub

/-- The message behind a pointer does. -/
def DeliversPointer (source : Nat) (data : Bytes) (h : Hub) : Prop :=
  ∃ h', (pointerCallback source (.ofBytes data) (some data)).run h = (.ok (), h') ∧
    Delivered (Bootstrap.subjectAt data) data h h'

/-- Nobody in shared memory is interested. -/
def OnSockets (subject : Subject UInt64) (h : Hub) : Prop :=
  ∀ i ∈ h.connections, (h.peer i).subscriptions.isInterested subject = true →
    ∀ queue, (h.peer i).link ≠ .shm queue

/-- Whoever is interested in shared memory has room in its queue. -/
def HasRoom (subject : Subject UInt64) (h : Hub) : Prop :=
  ∀ i ∈ h.connections, (h.peer i).subscriptions.isInterested subject = true →
    ∀ queue, (h.peer i).link = .shm queue → queue.objectList.items.length < 1024

theorem deliversBuffer_iff (source : Nat) {s : Routing} (hin : s.storage.InRange)
    (hnodup : s.hub.connections.Nodup) (h : Ordinary s.storage.rest)
    (hlength : 0 < subjectLengthAt s.storage.rest) :
    DeliversBuffer source s ↔ OnSockets (Bootstrap.subjectAt s.storage.rest) s.hub := by
  obtain ⟨b, hrun⟩ := processBuffer_ordinary source hin h hlength
  rw [DeliversBuffer, hrun]
  refine ⟨fun ⟨s', heq, hdelivered⟩ i hi hinterest queue hlink => ?_, fun hsockets => ?_⟩
  · cases heq
    have hreceives := (delivered_messageHandler source _ _ _ hnodup).mp hdelivered i hi hinterest
    rw [hlink, receives_shm] at hreceives
    cases hreceives.2
  · refine ⟨_, rfl, (delivered_messageHandler source _ _ _ hnodup).mpr fun i hi hinterest => ?_⟩
    cases hlink : (s.hub.peer i).link with
    | tcp sent => exact receives_tcp _ _ _ rfl
    | shm queue => exact absurd hlink (hsockets i hi hinterest queue)

theorem deliversPointer_iff (source : Nat) {h : Hub} (hnodup : h.connections.Nodup) {data : Bytes}
    (hdata : Ordinary data) :
    DeliversPointer source data h ↔ HasRoom (Bootstrap.subjectAt data) h := by
  rw [DeliversPointer, pointerCallback_ordinary source h hdata]
  refine ⟨fun ⟨h', heq, hdelivered⟩ i hi hinterest queue hlink => ?_, fun hroom => ?_⟩
  · cases heq
    have hreceives := (delivered_messageHandler source _ _ _ hnodup).mp hdelivered i hi hinterest
    rw [hlink, receives_shm] at hreceives
    exact Nat.lt_of_le_of_ne queue.objectList.bounded hreceives.1
  · refine ⟨_, rfl, (delivered_messageHandler source _ _ _ hnodup).mpr fun i hi hinterest => ?_⟩
    cases hlink : (h.peer i).link with
    | tcp sent => exact receives_tcp _ _ _ rfl
    | shm queue =>
        rw [receives_shm]
        exact ⟨Nat.ne_of_lt (hroom i hi hinterest queue hlink), rfl⟩

/-- From a socket a message reaches everybody who is interested, if and only if none of them
is in shared memory; from shared memory, if and only if those of them who are have
room in their queues. -/
theorem delivers_iff {h : Hub} (hnodup : h.connections.Nodup) (source : Nat) :
    (∀ b : ByteStorage, b.InRange → Ordinary b.rest → 0 < subjectLengthAt b.rest →
        (DeliversBuffer source ⟨h, b⟩ ↔ OnSockets (Bootstrap.subjectAt b.rest) h)) ∧
      ∀ data : Bytes, Ordinary data →
        (DeliversPointer source data h ↔ HasRoom (Bootstrap.subjectAt data) h) :=
  ⟨fun b hin hb hlength => deliversBuffer_iff source (s := ⟨h, b⟩) hin hnodup hb hlength,
    fun _ hdata => deliversPointer_iff source hnodup hdata⟩

/-- A router with a peer of each kind, the first on a socket and interested in everything,
the second in shared memory and interested in what matches `pattern`. -/
def twoPeers (pattern : String) : Hub where
  connections := [1, 2]
  peer i :=
    if i = 1 then ⟨[.new stringHash (.ofString ">")], .tcp []⟩
    else ⟨[.new stringHash (.ofString pattern)], .shm .new⟩

/-- `probe`, which is about `A`, arriving either way. -/
theorem probe_delivers :
    DeliversBuffer 1 ⟨twoPeers "B", .ofBytes probe.wire⟩ ∧
      DeliversPointer 2 probe.wire (twoPeers "A") := by
  obtain ⟨hprobe, hlength⟩ := ordinary_wire (m := probe) ⟨probe_built, by decide, by decide⟩
  have hrooms : HasRoom (Bootstrap.subjectAt probe.wire) (twoPeers "A") := by
    intro i hi _ queue hlink
    rcases List.mem_cons.mp hi with rfl | hi
    · cases hlink
    · rw [List.mem_singleton.mp hi] at hlink
      cases hlink
      decide
  have hsockets : OnSockets (Bootstrap.subjectAt probe.wire) (twoPeers "B") := by
    intro i hi hinterest queue hlink
    rcases List.mem_cons.mp hi with rfl | hi
    · cases hlink
    · rw [List.mem_singleton.mp hi] at hinterest
      exact absurd hinterest (by decide)
  exact ⟨((delivers_iff (h := twoPeers "B") (by decide) 1).1 (.ofBytes probe.wire)
      (Nat.zero_le _) hprobe hlength).mpr hsockets,
    ((delivers_iff (h := twoPeers "A") (by decide) 2).2 _ hprobe).mpr hrooms⟩

/-- The same message from the socket, with the second peer interested: the router takes it
for complete, and has pushed a null pointer. -/
theorem socket_to_shm_null :
    let s : Routing := ⟨twoPeers "A", .ofBytes probe.encoded⟩
    ((processBuffer 1).run s).1 = .ok .complete ∧
      (∃ queue, (((processBuffer 1).run s).2.hub.peer 2).link = .shm queue ∧
        queue.objectList.items = [none]) ∧
      ¬ DeliversBuffer 1 s := by
  intro s
  refine ⟨by rfl, ⟨_, by rfl, by rfl⟩, fun hdelivers => ?_⟩
  rw [deliversBuffer_iff 1 (Nat.zero_le _) (by decide) ⟨by decide, by decide, by decide⟩
    (by decide)] at hdelivers
  exact hdelivers 2 (by decide) (by decide) .new rfl

end Hub

end Fastpath
