import Mathlib.Data.List.Forall2
import Fastpath.Lib.Frames
import Fastpath.Proofs.Buffer
import Fastpath.Proofs.Codec

/-!
# What the client is given

The receive callback meets the stream in pieces it did not choose. Between two
reads the situation is always the same, and `Receives` says what it is: the
messages delivered so far are the first ones sent, the visible bytes are the
beginning of the rest, and they stop inside a message. A read moves bytes from
the network into the buffer, the loop behind it restores the situation, and
nothing else touches it.

That the objects come from a pool shows in one place only. `decode` fills an
object that was used before, and is asked to produce the same message whatever
the object held: clearing it is enough.
-/

namespace Fastpath

open Fastpath.Lib

/-- The messages the client can be given: those that survive the codec. -/
def Message.Deliverable (m : Message) : Prop := m.Sendable ∧ m.payload.length < 2 ^ 32

theorem Message.wire_ne_nil (m : Message) : m.wire ≠ [] := by
  intro h
  have hsize := m.size_le_length_wire
  rw [h, MsgAddressing.size] at hsize
  exact absurd hsize (by decide)

/-- Short of a whole message, the head of the buffer is an unfinished one. -/
theorem frameStatus_unfinished {todo : List Message} {p : Bytes}
    (hfits : ∀ m ∈ todo, m.wire.length < 2 ^ 64) (h : Unfinished Message.wire todo p) :
    (frameStatus p).1 = .incomplete := by
  cases todo with
  | nil =>
      rw [show p = [] from h]
      rfl
  | cons m rest =>
      obtain ⟨r, hr, hwire⟩ := h
      exact Message.frameStatus_prefix (hfits m List.mem_cons_self) hwire hr

theorem Pool.allocate_ok (p : Pool Message) :
    ∃ i p' old, Pool.allocate.run p = (.ok i, p') ∧ p'.object i = Message.clear old := by
  have hfree : (if p.freeAllocations.isEmpty then p.grow else p).freeAllocations ≠ [] := by
    split
    · have hcached := p.cached
      intro hnil
      have hlen := congrArg List.length (List.append_eq_nil_iff.mp hnil).1
      rw [List.length_reverse, List.length_drop, List.length_append, List.length_range',
        List.length_nil] at hlen
      omega
    · next hsome =>
        intro hnil
        rw [hnil] at hsome
        exact hsome rfl
  obtain ⟨i, rest, hcons⟩ := List.exists_cons_of_ne_nil hfree
  simp only [Pool.allocate, hcons]
  exact ⟨i, _, _, rfl, Function.update_self _ _ _⟩

namespace TCPTransport

/-! ## One message -/

/-- The parts of a transport that taking a message off a view does not touch. -/
structure SameLink (t t' : TCPTransport) : Prop where
  readBuffer : t'.readBuffer = t.readBuffer
  connected : t'.connected = t.connected
  shouldDisconnect : t'.shouldDisconnect = t.shouldDisconnect

theorem deliver_spec (keeps : Nat → Bool) (i : Nat) (t : TCPTransport) :
    (t.deliver keeps i).delivered = t.delivered ++ [t.pool.object i] ∧
      SameLink t (t.deliver keeps i) := by
  rw [deliver]
  dsimp only
  split <;> exact ⟨rfl, rfl, rfl, rfl⟩

theorem haveComplete_zoom {s : Receiving} (hin : s.storage.read ≤ s.storage.bytes.length) :
    (Exec.zoom Receiving.storage (fun b s => { s with storage := b }) haveCompleteMessage).run s =
      (.ok (frameStatus s.storage.rest), s) :=
  Exec.zoom_ok (haveCompleteMessage_run hin)

theorem processData_other (keeps : Nat → Bool) {s : Receiving}
    (hin : s.storage.read ≤ s.storage.bytes.length)
    (h : (frameStatus s.storage.rest).1 ≠ .complete) :
    (processData keeps).run s = (.ok false, s) := by
  rw [processData, Exec.bind_ok (haveComplete_zoom hin)]
  cases hstatus : frameStatus s.storage.rest with
  | mk status n =>
      rw [hstatus] at h
      cases status with
      | complete => exact absurd rfl h
      | incomplete => rfl
      | corrupt => rfl

theorem processData_complete (keeps : Nat → Bool) {s : Receiving} {n : Nat}
    (hin : s.storage.read ≤ s.storage.bytes.length)
    (h : frameStatus s.storage.rest = (.complete, n)) :
    ∃ i p old, p.object i = Message.clear old ∧
      (processData keeps).run s =
        (decodeInto keeps i).run ⟨{ s.transport with pool := p }, s.storage.mark⟩ := by
  obtain ⟨i, p, old, halloc, hold⟩ := Pool.allocate_ok s.transport.pool
  refine ⟨i, p, old, hold, ?_⟩
  have hzoom : (Exec.zoom (fun s : Receiving => s.transport.pool)
      (fun p s => { s with transport := { s.transport with pool := p } }) Pool.allocate).run s =
      (.ok i, ⟨{ s.transport with pool := p }, s.storage⟩) := Exec.zoom_ok halloc
  rw [processData, Exec.bind_ok (haveComplete_zoom hin), h]
  dsimp only
  rw [Exec.bind_ok hzoom, Exec.bind_ok (Exec.modify_run _ _)]

/-- In front of an image, `processData` delivers the message and steps over it. -/
theorem processData_wire (keeps : Nat → Bool) {m : Message} (hm : m.Deliverable) {s : Receiving}
    {t : Bytes} (h : s.storage.rest = m.wire ++ t) :
    ∃ s' out, (processData keeps).run s = (.ok true, s') ∧ m.Agree out ∧
      s'.transport.delivered = s.transport.delivered ++ [out] ∧
      SameLink s.transport s'.transport ∧
      s'.storage = s.storage.mark.advanceRead m.wire.length := by
  have hin : s.storage.read ≤ s.storage.bytes.length := by
    have hpos := List.length_pos_iff.mpr m.wire_ne_nil
    apply ByteStorage.inRange_of_rest hpos
    rw [h, List.length_append]
    exact Nat.le_add_right _ _
  have hstatus : frameStatus s.storage.rest = (.complete, m.wire.length) := by
    rw [h, Message.frameStatus_wire hm.1.fits]
  obtain ⟨i, p, old, hold, hrun⟩ := processData_complete keeps hin hstatus
  have hdecode := decode_wire hm.1 hm.2 (Message.clear old) (b := s.storage.mark) h
  have hagree : m.Agree ((Message.clear old).receivedInto m) := Message.agree_receivedInto m rfl
  rw [hrun]
  simp only [decodeInto, hold, hdecode]
  obtain ⟨hdelivered, hlink⟩ := deliver_spec keeps i
    { s.transport with pool := p.store i ((Message.clear old).receivedInto m) }
  refine ⟨_, (Message.clear old).receivedInto m, rfl, hagree, ?_,
    ⟨hlink.readBuffer, hlink.connected, hlink.shouldDisconnect⟩, rfl⟩
  rw [hdelivered]
  simp only [Pool.store, Function.update_self]

theorem SameLink.trans {t t' t'' : TCPTransport} (h : SameLink t t') (h' : SameLink t' t'') :
    SameLink t t'' :=
  ⟨h'.readBuffer.trans h.readBuffer, h'.connected.trans h.connected,
    h'.shouldDisconnect.trans h.shouldDisconnect⟩

/-! ## One read -/

/-- The situation between two reads, with `future` still to arrive. -/
structure Receives (sent : List Message) (future : Bytes) (t : TCPTransport) : Prop where
  connected : t.connected = true
  staying : t.shouldDisconnect = false
  sound : t.readBuffer.Sound
  progress : ∃ done todo, sent = done ++ todo ∧ List.Forall₂ Message.Agree done t.delivered ∧
    t.readBuffer.bytes ++ future = todo.flatMap Message.wire ∧
    Unfinished Message.wire todo t.readBuffer.bytes

/-- The loop over one view of the buffer, from any state in which the messages
delivered are the first ones sent. -/
theorem drain_receives (keeps : Nat → Bool) {sent done todo : List Message}
    (hsent : ∀ m ∈ sent, m.Deliverable) {t : TCPTransport} {future : Bytes}
    (hconnected : t.connected = true) (hstaying : t.shouldDisconnect = false)
    (hsound : t.readBuffer.Sound) (hall : sent = done ++ todo)
    (hdone : List.Forall₂ Message.Agree done t.delivered)
    (hstream : t.readBuffer.bytes ++ future = todo.flatMap Message.wire) :
    ∃ t', (drain keeps).run t = (.ok (), t') ∧ Receives sent future t' := by
  -- what a round keeps: the view's bytes and the buffer under it stay, only the
  -- cursor moves, and messages pass from what is to come to what was delivered
  let Inv (todo : List Message) (s : Receiving) : Prop :=
    s.storage.read ≤ s.storage.bytes.length ∧ s.storage.bytes = t.readBuffer.bytes ∧
      SameLink t s.transport ∧
      ∃ done, sent = done ++ todo ∧ List.Forall₂ Message.Agree done s.transport.delivered
  have hmem : ∀ {todo s}, Inv todo s → ∀ m ∈ todo, m.Deliverable := by
    intro todo s h m hm
    obtain ⟨-, -, -, done, hsplit, -⟩ := h
    exact hsent m (by rw [hsplit]; exact List.mem_append_right _ hm)
  have hstep : ∀ {m rest} {s : Receiving} {r}, Inv (m :: rest) s →
      s.storage.rest = m.wire ++ r →
      ∃ s', (processRound keeps).run s = (.ok none, s') ∧ Inv rest s' ∧ s'.storage.rest = r := by
    intro m rest s r hinv hrest
    have hm := hmem hinv m List.mem_cons_self
    obtain ⟨hin, hbytes, hlink, done, hsplit, hagree⟩ := hinv
    obtain ⟨s', out, hrun, hout, hdelivered, hlink', hstorage⟩ := processData_wire keeps hm hrest
    have hlen : s.storage.read + m.wire.length ≤ s.storage.bytes.length := by
      have := congrArg List.length hrest
      rw [ByteStorage.length_rest, List.length_append] at this
      omega
    refine ⟨s', ?_, ⟨?_, ?_, hlink.trans hlink', done ++ [m], ?_, ?_⟩, ?_⟩
    · rw [processRound, Exec.bind_ok hrun]
      rfl
    · rw [hstorage]
      exact hlen
    · rw [hstorage]
      exact hbytes
    · rw [hsplit, List.append_assoc, List.singleton_append]
    · rw [hdelivered]
      exact List.rel_append hagree (.cons hout .nil)
    · rw [hstorage]
      exact ByteStorage.rest_advanceRead_append (s := s.storage.mark) hrest
  have hstop : ∀ {todo} {s : Receiving}, Inv todo s →
      Unfinished Message.wire todo s.storage.rest →
      (processRound keeps).run s = (.ok (some ()), s) := by
    intro todo s hinv hu
    have hstatus := frameStatus_unfinished (fun m hm => (hmem hinv m hm).1.fits) hu
    have hother : (frameStatus s.storage.rest).1 ≠ .complete := by
      rw [hstatus]
      decide
    rw [processRound, Exec.bind_ok (processData_other keeps hinv.1 hother)]
    rfl
  have hstart : Inv todo ⟨t, t.readBuffer.byteStorage⟩ :=
    ⟨Nat.zero_le _, rfl, ⟨rfl, rfl, rfl⟩, done, hall, hdone⟩
  obtain ⟨todo', s₁, c, s', hinv, hfuture, hu, hbody, hloop⟩ :=
    Exec.untilSome_frames Fault.diverged (fun s : Receiving => s.storage.rest) Inv
      Message.wire_ne_nil hstep (fun hinv hu => ⟨(), _, hstop hinv hu⟩) hstart hstream
      (Nat.lt_succ_self _)
  rw [hstop hinv hu] at hbody
  obtain ⟨-, rfl⟩ := Prod.mk.inj hbody
  obtain ⟨hin, hbytes, hlink, done', hsplit, hagree⟩ := hinv
  have hrun : (drain keeps).run t =
      (.ok (), { s₁.transport with
        readBuffer := s₁.transport.readBuffer.eraseFront s₁.storage.bytesRead }) := by
    have hfuel : (Exec.untilSome .diverged (processRound keeps)
        (t.readBuffer.bytes.length + 1)).run ⟨t, t.readBuffer.byteStorage⟩ = (.ok (), s₁) := hloop
    simp only [drain, hfuel]
  have herased := MessageBuffer.eraseFront_bytes (b := s₁.transport.readBuffer) s₁.storage.bytesRead
  have hleft : (s₁.transport.readBuffer.eraseFront s₁.storage.bytesRead).bytes =
      s₁.storage.rest := by
    rw [herased.1, hlink.readBuffer, ← hbytes]
    rfl
  refine ⟨_, hrun, hlink.connected.trans hconnected, hlink.shouldDisconnect.trans hstaying,
    herased.2 (by rw [hlink.readBuffer]; exact hsound), done', todo', hsplit, hagree, ?_, ?_⟩
  · rw [hleft]
    exact hfuture
  · rw [hleft]
    exact hu

/-! ## A whole run -/

theorem Receives.fill {sent : List Message} {data future : Bytes} {t : TCPTransport}
    (h : Receives sent (data ++ future) t) (hdata : data.length ≤ mtuSize) :
    (t.readBuffer.fill data).Sound ∧
      ∃ done todo, sent = done ++ todo ∧ List.Forall₂ Message.Agree done t.delivered ∧
        (t.readBuffer.fill data).bytes ++ future = todo.flatMap Message.wire := by
  obtain ⟨done, todo, hsplit, hagree, hstream, -⟩ := h.progress
  obtain ⟨hbytes, hsound⟩ := MessageBuffer.fill_bytes h.sound data hdata
  refine ⟨hsound, done, todo, hsplit, hagree, ?_⟩
  rw [hbytes, List.append_assoc]
  exact hstream

theorem Receives.fill_nil {sent : List Message} {future : Bytes} {t : TCPTransport}
    (h : Receives sent future t) :
    Receives sent future { t with readBuffer := t.readBuffer.fill [] } := by
  obtain ⟨done, todo, hsplit, hagree, hstream, hu⟩ := h.progress
  obtain ⟨hbytes, hsound⟩ := MessageBuffer.fill_bytes h.sound [] (Nat.zero_le _)
  rw [List.append_nil] at hbytes
  refine ⟨h.connected, h.staying, hsound, done, todo, hsplit, hagree, ?_, ?_⟩
  · rw [hbytes]
    exact hstream
  · rw [hbytes]
    exact hu

/-- One call of the receive callback, up to what its last read does. -/
theorem receive_receives (keeps : Nat → Bool) (last : LastRead) {sent : List Message}
    (hsent : ∀ m ∈ sent, m.Deliverable) {reads : List Bytes} {future : Bytes}
    (hreads : ∀ data ∈ reads, data.length ≤ mtuSize) {t : TCPTransport}
    (h : Receives sent (reads.flatten ++ future) t) :
    ∃ t', Receives sent future t' ∧
      (receive keeps last reads).run t = (receive keeps last []).run t' := by
  induction reads generalizing t with
  | nil => exact ⟨t, h, rfl⟩
  | cons data reads ih =>
      rw [List.flatten_cons, List.append_assoc] at h
      obtain ⟨hsound, done, todo, hsplit, hagree, hstream⟩ :=
        h.fill (hreads data List.mem_cons_self)
      obtain ⟨t₁, hdrain, hnext⟩ := drain_receives keeps hsent
        (t := { t with readBuffer := t.readBuffer.fill data }) h.connected h.staying hsound hsplit
        hagree hstream
      obtain ⟨t', hdone, hrun⟩ := ih (fun d hd => hreads d (List.mem_cons_of_mem _ hd)) hnext
      refine ⟨t', hdone, ?_⟩
      rw [← hrun, receive, Exec.bind_ok (Exec.get_run t), if_pos h.connected,
        Exec.bind_ok (Exec.modify_run _ _), Exec.bind_ok hdrain]

theorem Receives.letGo {sent : List Message} {future : Bytes} {t : TCPTransport} (i : Nat)
    (h : Receives sent future t) : Receives sent future (t.letGo i) := by
  rw [TCPTransport.letGo]
  split
  · exact ⟨h.connected, h.staying, h.sound, h.progress⟩
  · exact h

theorem run_receives (keeps : Nat → Bool) {sent : List Message}
    (hsent : ∀ m ∈ sent, m.Deliverable) {events : List Event} {future : Bytes}
    (hreads : ∀ data ∈ reads events, data.length ≤ mtuSize) {t : TCPTransport}
    (h : Receives sent ((reads events).flatten ++ future) t) :
    ∃ t', (run keeps events).run t = (.ok (), t') ∧ Receives sent future t' := by
  induction events generalizing t with
  | nil => exact ⟨t, rfl, h⟩
  | cons event events ih =>
      cases event with
      | readable found =>
          rw [reads] at hreads h
          rw [List.flatten_append, List.append_assoc] at h
          obtain ⟨t₁, hnext, hrun⟩ := receive_receives keeps .noData hsent
            (fun d hd => hreads d (List.mem_append_left _ hd)) h
          obtain ⟨t', hrest, hdone⟩ :=
            ih (fun d hd => hreads d (List.mem_append_right _ hd)) hnext.fill_nil
          have hhandle : (handle keeps (.readable found)).run t =
              (.ok (), { t₁ with readBuffer := t₁.readBuffer.fill [] }) := hrun
          exact ⟨t', by rw [run, Exec.bind_ok hhandle, hrest], hdone⟩
      | letGo i =>
          obtain ⟨t', hrest, hdone⟩ := ih hreads (h.letGo i)
          have hhandle : (handle keeps (.letGo i)).run t = (.ok (), t.letGo i) := rfl
          exact ⟨t', by rw [run, Exec.bind_ok hhandle, hrest], hdone⟩

theorem new_receives (heap : Nat → Nat → UInt8) {sent : List Message} :
    Receives sent (sent.flatMap Message.wire) (TCPTransport.new heap) :=
  ⟨rfl, rfl, MessageBuffer.new_sound _ _, [], sent, rfl, .nil, rfl, .nil Message.wire_ne_nil sent⟩

/-- Every cut of the stream into reads, over any number of calls of the callback,
delivers the messages sent and nothing else. -/
theorem run_delivers (keeps : Nat → Bool) (heap : Nat → Nat → UInt8) {sent : List Message}
    (hsent : ∀ m ∈ sent, m.Sendable ∧ m.payload.length < 2 ^ 32) {events : List Event}
    (hreads : ∀ data ∈ reads events, 0 < data.length ∧ data.length ≤ 1500)
    (hstream : (reads events).flatten = sent.flatMap Message.encoded) :
    ∃ t, (run keeps events).run (TCPTransport.new heap) = (.ok (), t) ∧
      List.Forall₂ Message.Agree sent t.delivered ∧ t.readBuffer.bytes = [] := by
  have hstart : Receives sent ((reads events).flatten ++ []) (TCPTransport.new heap) := by
    rw [List.append_nil, hstream, funext Message.encoded_eq]
    exact new_receives heap
  obtain ⟨t, hrun, hdone⟩ :=
    run_receives keeps hsent (fun d hd => (hreads d hd).2) hstart
  obtain ⟨done, todo, hsplit, hagree, hbytes, hu⟩ := hdone.progress
  rw [List.append_nil] at hbytes
  obtain ⟨rfl, hnil⟩ := hu.eq_nil hbytes
  rw [List.append_nil] at hsplit
  exact ⟨t, hrun, hsplit ▸ hagree, hnil⟩

/-- `probe` in three reads over two calls. -/
theorem probe_delivered :
    let events := [Event.readable [probe.encoded.take 3, (probe.encoded.drop 3).take 20],
      .letGo 0, .readable [probe.encoded.drop 23]]
    ∃ t, (run (fun _ => true) events).run (TCPTransport.new fun _ _ => 0) = (.ok (), t) ∧
      List.Forall₂ Message.Agree [probe] t.delivered ∧ t.readBuffer.bytes = [] := by
  refine run_delivers _ _ ?_ (by decide) (by decide)
  intro m hm
  rw [List.mem_singleton.mp hm]
  exact ⟨⟨probe_built, by decide, ⟨trivial, trivial⟩, by decide⟩, by decide⟩

/-! ## A message that is never delivered -/

theorem drain_of_false (keeps : Nat → Bool) {t : TCPTransport} {s : Receiving}
    (h : (processData keeps).run ⟨t, t.readBuffer.byteStorage⟩ = (.ok false, s)) :
    (drain keeps).run t =
      (.ok (), { s.transport with
        readBuffer := s.transport.readBuffer.eraseFront s.storage.bytesRead }) := by
  have hround : (processRound keeps).run ⟨t, t.readBuffer.byteStorage⟩ = (.ok (some ()), s) := by
    rw [processRound, Exec.bind_ok h]
    rfl
  have hloop : (Exec.untilSome .diverged (processRound keeps)
      (t.readBuffer.bytes.length + 1)).run ⟨t, t.readBuffer.byteStorage⟩ = (.ok (), s) := by
    rw [Exec.untilSome, Exec.bind_ok hround]
    rfl
  simp only [drain, hloop]

/-- With some part of the image of an uncounted message in the buffer nothing is
delivered, not even when the part is the whole. -/
theorem drain_uncounted (keeps : Nat → Bool) {m : Message} (hfits : m.wire.length < 2 ^ 64)
    (hsubject : m.subjectString.length < Message.maxSubjectLength) (hnonempty : m.payload ≠ [])
    (hcount : m.payload.length % 2 ^ 32 = 0) {t : TCPTransport} {future : Bytes}
    (hsound : t.readBuffer.Sound) (hstream : t.readBuffer.bytes ++ future = m.wire) :
    ∃ t', (drain keeps).run t = (.ok (), t') ∧ t'.readBuffer.Sound ∧
      t'.readBuffer.bytes = t.readBuffer.bytes ∧ t'.delivered = t.delivered ∧
      t'.connected = t.connected := by
  by_cases hend : future = []
  · rw [hend, List.append_nil] at hstream
    have hrest : t.readBuffer.byteStorage.rest = m.wire ++ [] := by
      rw [List.append_nil]
      exact hstream
    have hstatus := Message.frameStatus_wire hfits []
    rw [← hrest] at hstatus
    obtain ⟨i, p, old, hold, hrun⟩ :=
      processData_complete keeps (s := ⟨t, t.readBuffer.byteStorage⟩) (Nat.zero_le _) hstatus
    obtain ⟨out, n, hdecode⟩ := decode_wire_uncounted hfits hsubject hnonempty hcount
      (Message.clear old) (b := t.readBuffer.byteStorage.mark) hrest
    simp only [decodeInto, hold, hdecode] at hrun
    have herased := MessageBuffer.eraseFront_bytes (b := t.readBuffer) 0
    exact ⟨_, drain_of_false keeps hrun, herased.2 hsound, herased.1, rfl, rfl⟩
  · have hstatus := Message.frameStatus_prefix hfits hstream.symm hend
    have hother : (frameStatus t.readBuffer.byteStorage.rest).1 ≠ .complete := by
      rw [show (frameStatus t.readBuffer.byteStorage.rest).1 = .incomplete from hstatus]
      decide
    have hdrain := drain_of_false keeps
      (processData_other keeps (s := ⟨t, t.readBuffer.byteStorage⟩) (Nat.zero_le _) hother)
    have herased := MessageBuffer.eraseFront_bytes (b := t.readBuffer) 0
    exact ⟨_, hdrain, herased.2 hsound, herased.1, rfl, rfl⟩

theorem receive_uncounted (keeps : Nat → Bool) {m : Message} (hfits : m.wire.length < 2 ^ 64)
    (hsubject : m.subjectString.length < Message.maxSubjectLength) (hnonempty : m.payload ≠ [])
    (hcount : m.payload.length % 2 ^ 32 = 0) {reads : List Bytes} {t : TCPTransport}
    (hreads : ∀ data ∈ reads, data.length ≤ mtuSize) (hconnected : t.connected = true)
    (hsound : t.readBuffer.Sound) (hstream : t.readBuffer.bytes ++ reads.flatten = m.wire) :
    ∃ t', (receive keeps .noData reads).run t = (.ok (), t') ∧ t'.delivered = t.delivered := by
  induction reads generalizing t with
  | nil => exact ⟨_, rfl, rfl⟩
  | cons data reads ih =>
      obtain ⟨hbytes, hsound₁⟩ := MessageBuffer.fill_bytes hsound data
        (hreads data List.mem_cons_self)
      rw [List.flatten_cons, ← List.append_assoc, ← hbytes] at hstream
      obtain ⟨t₁, hdrain, hsound₂, hbytes₂, hdelivered, hconn⟩ :=
        drain_uncounted keeps hfits hsubject hnonempty hcount
          (t := { t with readBuffer := t.readBuffer.fill data }) hsound₁ hstream
      obtain ⟨t', hrun, hsame⟩ := ih (fun d hd => hreads d (List.mem_cons_of_mem _ hd))
        (hconn.trans hconnected) hsound₂ (by rw [hbytes₂]; exact hstream)
      refine ⟨t', ?_, hsame.trans hdelivered⟩
      rw [receive, Exec.bind_ok (Exec.get_run t), if_pos hconnected,
        Exec.bind_ok (Exec.modify_run _ _), Exec.bind_ok hdrain, hrun]

theorem run_uncounted (keeps : Nat → Bool) (heap : Nat → Nat → UInt8) {m : Message}
    (hm : m.Sendable) (hcount : m.payload.length % 2 ^ 32 = 0) {reads : List Bytes}
    (hreads : ∀ data ∈ reads, data.length ≤ mtuSize) (hstream : reads.flatten = m.wire) :
    ∃ t, (run keeps [.readable reads]).run (TCPTransport.new heap) = (.ok (), t) ∧
      t.delivered = [] := by
  obtain ⟨t, hrun, hnone⟩ := receive_uncounted keeps hm.fits hm.built.subject_lt hm.nonempty
    hcount (t := TCPTransport.new heap) hreads rfl (Nat.zero_le _)
    (by rw [hstream, show (TCPTransport.new heap).readBuffer.bytes = [] from rfl,
      List.nil_append])
  have hhandle : (handle keeps (.readable reads)).run (TCPTransport.new heap) = (.ok (), t) :=
    hrun
  refine ⟨t, ?_, hnone⟩
  rw [run, Exec.bind_ok hhandle]
  rfl

theorem flatten_singletons (l : Bytes) :
    (l.map fun b => [b]).flatten = l ∧
      ∀ data ∈ l.map fun b => [b], 0 < data.length ∧ data.length ≤ 1500 := by
  refine ⟨?_, ?_⟩
  · rw [← List.flatMap_def]
    exact List.flatMap_singleton' l
  · intro data hdata
    obtain ⟨b, -, rfl⟩ := List.mem_map.mp hdata
    exact ⟨by simp, by simp⟩

/-- `crowd`, read byte by byte: all of it arrives, and the callback is not called. -/
theorem crowd_not_delivered :
    crowd.Sendable ∧
      (∀ data ∈ crowd.encoded.map fun b => [b], 0 < data.length ∧ data.length ≤ 1500) ∧
      (crowd.encoded.map fun b => [b]).flatten = [crowd].flatMap Message.encoded ∧
      ¬ ∃ t, (run (fun _ => false) [.readable (crowd.encoded.map fun b => [b])]).run
          (TCPTransport.new fun _ _ => 0) = (.ok (), t) ∧
        List.Forall₂ Message.Agree [crowd] t.delivered ∧ t.readBuffer.bytes = [] := by
  obtain ⟨hbuilt, hbounded, hlen, hfits⟩ := crowd_spec
  obtain ⟨hflat, hsize⟩ := flatten_singletons crowd.encoded
  have hsend : crowd.Sendable := ⟨hbuilt, crowd_payload_ne_nil, hbounded, hfits⟩
  refine ⟨hsend, hsize, ?_, ?_⟩
  · rw [hflat, List.flatMap_cons, List.flatMap_nil, List.append_nil]
  · intro h
    obtain ⟨t, hrun, hagree, -⟩ := h
    obtain ⟨t', hrun', hnone⟩ := run_uncounted (fun _ => false) (fun _ _ => 0) hsend
      (by rw [hlen, Nat.mod_self]) (fun d hd => (hsize d hd).2)
      (hflat.trans (Message.encoded_eq crowd))
    rw [hrun] at hrun'
    obtain ⟨-, rfl⟩ := Prod.mk.inj hrun'
    rw [hnone] at hagree
    cases hagree

end TCPTransport

end Fastpath
