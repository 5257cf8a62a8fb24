import Fastpath.Proofs.Inside
import Fastpath.Proofs.Progress

/-!
# Two decoders, or one

`Model.Codec` stops where it would leave its buffer, and `Model.Exposed` reads on.
Where the one does not stop they are the same, whatever memory the other has behind
its view: the same answer or exception, the same message and the same cursor. So
what is proved of a decoder that stays inside its buffer is true of the one that has
no such scruples, and the memory behind a view matters only to a run that comes upon
it.
-/

namespace Fastpath

open Fastpath.Lib

variable {α : Type}

/-- A stop behind which the program reads or writes memory that it was not given. -/
def Fault.Memory (e : Fault) : Prop := e.isMemory = true

namespace Exposed

/-- With some memory behind the view. -/
def Exposes (s : ByteStorage) (t : Exposed) : Prop := t.view = s

def ExposesDecode (s : DecodeState) (t : Decoding) : Prop :=
  t.msg = s.msg ∧ Exposes s.buffer t.source

/-- Unless `x` stops at a memory fault, `y` is what it does with memory behind its view. -/
def Agrees (x : Exec Fault ByteStorage α) (y : Exec Fault Exposed α) : Prop :=
  Exec.Follows Exposes Fault.Memory x y

def AgreesDecode (x : Exec Fault DecodeState α) (y : Exec Fault Decoding α) : Prop :=
  Exec.Follows ExposesDecode Fault.Memory x y

/-! ## The readers -/

theorem agrees_get : Agrees Exec.get (onView Exec.get) := by
  rintro s t rfl
  exact .inr ⟨rfl, rfl⟩

theorem agrees_modify {f : ByteStorage → ByteStorage} {g : Exposed → Exposed}
    (h : ∀ t : Exposed, (g t).view = f t.view) : Agrees (Exec.modify f) (Exec.modify g) := by
  refine Exec.Follows.modify ?_
  rintro s t rfl
  exact h t

theorem agrees_step (n : Nat) :
    Agrees (Exec.modify (ByteStorage.advanceRead n)) (Exec.modify (advanceRead n)) :=
  agrees_modify fun _ => rfl

theorem agrees_peekBytes (offset n : Nat) :
    Agrees (ByteStorage.peekBytes offset n) (peekBytes offset n) := by
  rintro s t rfl
  simp only [ByteStorage.peekBytes, peekBytes]
  by_cases hin : n = 0 ∨ t.view.read + offset + n ≤ t.view.bytes.length
  · refine .inr ?_
    have hmemory : n = 0 ∨ t.view.read + offset + n ≤ t.memory.length := by
      rw [memory, List.length_append]
      omega
    rw [if_pos hin, if_pos hmemory]
    refine ⟨congrArg Except.ok ?_, rfl⟩
    rcases hin with hzero | hin
    · rw [hzero, List.take_zero, List.take_zero]
    · have hrest : offset + n ≤ t.view.rest.length := by
        rw [ByteStorage.rest, List.length_drop]
        omega
      exact (take_unread (show t.view.read ≤ t.view.bytes.length by omega) hrest).symm
  · rw [if_neg hin]
    exact .inl ⟨.outOfBounds, rfl, rfl⟩

theorem agrees_peekScalar (offset w : Nat) :
    Agrees (ByteStorage.peekScalar offset w) (peekScalar offset w) :=
  (agrees_peekBytes offset w).bind fun _ => .pure _

theorem agrees_readScalar (w : Nat) : Agrees (ByteStorage.readScalar w) (readScalar w) :=
  (agrees_peekScalar 0 w).bind fun _ => (agrees_step w).bind fun _ => .pure _

/-- What is noted is not looked at. -/
theorem agrees_noted {x : Exec Fault ByteStorage α} {array : FixedArray} {length : Nat}
    {y : Exec Fault Exposed α} (h : Agrees x y) : Agrees x (copyInto array length >>= fun _ => y) :=
  Exec.Follows.bind_right (fun _ t hst => ⟨(), t.noted array length, rfl, hst⟩) fun _ => h

theorem agrees_copyFrom (position n : Nat) :
    Agrees (ByteStorage.copyFrom position n) (copyFrom position n) := by
  rintro s t rfl
  obtain hlimit | ⟨hanswer, -⟩ := agrees_peekBytes 0 n { t.view with read := position }
    { t with view := { t.view with read := position } } rfl
  · exact .inl hlimit
  · exact .inr ⟨hanswer, rfl⟩

theorem agrees_haveCompleteMessage :
    Agrees Fastpath.haveCompleteMessage haveCompleteMessage := by
  refine agrees_get.bind fun buffer => ?_
  split
  · refine (agrees_peekScalar 0 1).bind fun chk => ?_
    split
    · exact .pure _
    · refine (agrees_peekScalar 1 8).bind fun field => ?_
      dsimp only
      split
      · exact .pure _
      · exact .pure _
  · exact .pure _

theorem agrees_addressingDetails : Agrees Fastpath.addressingDetails addressingDetails := by
  refine agrees_haveCompleteMessage.bind fun details => ?_
  obtain ⟨status, msgLength⟩ := details
  cases status with
  | complete =>
      refine (agrees_step 1).bind fun _ => (agrees_step 8).bind fun _ => ?_
      refine (agrees_peekScalar 0 1).bind fun flags => ?_
      refine (agrees_step 1).bind fun _ => (agrees_step 4).bind fun _ => ?_
      refine (agrees_peekScalar 0 2).bind fun subjectLength => (agrees_step 2).bind fun _ => ?_
      exact agrees_get.bind fun buffer => (agrees_step subjectLength).bind fun _ => .pure _
  | incomplete => exact .pure _
  | corrupt => exact .pure _

theorem agrees_peekFieldHeader : Agrees Fastpath.peekFieldHeader peekFieldHeader :=
  (agrees_peekScalar 0 1).bind fun _ => (agrees_peekScalar 1 1).bind fun _ =>
    (agrees_peekScalar 2 4).bind fun _ => .pure _

theorem agrees_readFieldHeader : Agrees Fastpath.readFieldHeader readFieldHeader := by
  refine agrees_get.bind fun buffer => ?_
  split
  · refine (agrees_readScalar 1).bind fun type => (agrees_readScalar 1).bind fun length => ?_
    refine (agrees_readScalar 4).bind fun dataLength => agrees_get.bind fun buffer => ?_
    split
    · refine (agrees_peekBytes 0 length).bind fun identifier => agrees_noted ?_
      refine (agrees_step length).bind fun _ => agrees_get.bind fun buffer => ?_
      split
      · exact .pure _
      · exact .throw _
    · exact .throw _
  · exact .throw _

/-! ## The fields -/

/-- A copy that does not fit is where the decoder of `Model.Codec` stops. -/
theorem agrees_createScalarField : Agrees Fastpath.createScalarField createScalarField := by
  refine agrees_readFieldHeader.bind fun header => ?_
  refine (agrees_peekBytes 0 header.dataLength).bind fun data => agrees_noted ?_
  split
  · exact (agrees_step header.dataLength).bind fun _ => .pure _
  · exact .exhausted (show Fault.Memory .overrun from rfl) _

theorem agrees_createDataField (size : Nat) :
    Agrees (Fastpath.createDataField size) (createDataField size) := by
  refine agrees_readFieldHeader.bind fun header => ?_
  refine (agrees_peekBytes 0 header.dataLength).bind fun value => ?_
  split
  · refine agrees_noted ?_
    split
    · exact (agrees_step header.dataLength).bind fun _ => .pure _
    · exact .exhausted (show Fault.Memory .overrun from rfl) _
  · exact (agrees_step header.dataLength).bind fun _ => .pure _

theorem agrees_createDateTimeField : Agrees Fastpath.createDateTimeField createDateTimeField :=
  agrees_readFieldHeader.bind fun _ => (agrees_readScalar 8).bind fun _ =>
    (agrees_readScalar 8).bind fun _ => .pure _

theorem Agrees.onSource {x : Exec Fault ByteStorage α} {y : Exec Fault Exposed α}
    (h : Agrees x y) : AgreesDecode (DecodeState.onBuffer x) (onSource y) :=
  Exec.Follows.zoom h (fun _ _ hst => hst.2) fun _ _ _ _ hst hru => ⟨hst.1, hru⟩

/-! ## The decoder -/

variable {body : Exec Fault DecodeState Bool} {body' : Exec Fault Decoding Bool}

theorem agrees_onFresh (h : AgreesDecode body body') :
    AgreesDecode (DecodeState.onFresh body) (onFresh body') := by
  intro s t hst
  have hsub := h ⟨Message.new, s.buffer⟩ ⟨Message.new, t.source⟩ ⟨rfl, hst.2⟩
  simp only [DecodeState.onFresh, onFresh]
  cases hrun : body.run ⟨Message.new, s.buffer⟩ with
  | mk answer sub =>
      cases hrun' : body'.run ⟨Message.new, t.source⟩ with
      | mk answer' sub' =>
          rw [hrun, hrun'] at hsub
          obtain ⟨e, he, hlimit⟩ | ⟨hanswer, hmsg, hsource⟩ := hsub
          · dsimp only at hlimit
            subst hlimit
            exact .inl ⟨e, he, rfl⟩
          · dsimp only at hanswer hmsg hsource
            subst hanswer
            cases answer with
            | ok a => exact .inr ⟨congrArg Except.ok hmsg.symm, hst.1, hsource⟩
            | error e => exact .inr ⟨rfl, hst.1, hsource⟩

theorem agrees_decodeField (h : AgreesDecode body body') :
    AgreesDecode (Fastpath.decodeField body) (decodeField body') := by
  refine agrees_peekFieldHeader.onSource.bind fun header => ?_
  obtain ⟨type, identifierLength, dataSize⟩ := header
  cases type with
  | string => exact (agrees_createDataField dataSize).onSource
  | data => exact (agrees_createDataField dataSize).onSource
  | dateTime => exact agrees_createDateTimeField.onSource
  | message =>
      exact agrees_readFieldHeader.onSource.bind fun _ => (agrees_onFresh h).bind fun _ => .pure _
  | _ => exact agrees_createScalarField.onSource

theorem agrees_decodeBody {fields : Nat → Exec Fault DecodeState Unit}
    {fields' : Nat → Exec Fault Decoding Unit}
    (h : ∀ count, AgreesDecode (fields count) (fields' count)) :
    AgreesDecode (Fastpath.decodeBody fields) (decodeBody fields') := by
  refine Exec.Follows.get fun s t hst => ?_
  rw [show t.source.view = s.buffer from hst.2]
  split
  · refine (agrees_readScalar 1).onSource.bind fun chk => ?_
    split
    · exact .throw _
    · exact (agrees_readScalar 4).onSource.bind fun count => (h count).bind fun _ => .pure _
  · exact .pure _

theorem agrees_onMessage (f : Message → Message) :
    AgreesDecode (Exec.modify fun s => { s with msg := f s.msg })
      (Exec.modify fun t => { t with msg := f t.msg }) :=
  Exec.Follows.modify fun _ _ hst => ⟨congrArg f hst.1, hst.2⟩

/-- There is at least as much memory as there is buffer. -/
theorem agrees_decodeFields {fuel fuel' : Nat} (hle : fuel ≤ fuel') (count : Nat) :
    AgreesDecode (Fastpath.decodeFields fuel count) (decodeFields fuel' count) := by
  induction fuel generalizing fuel' count with
  | zero =>
      cases count with
      | zero =>
          rw [Fastpath.decodeFields, decodeFields]
          exact .pure ()
      | succ count => exact .exhausted (show Fault.Memory .outOfBounds from rfl) _
  | succ fuel ih =>
      cases fuel' with
      | zero => exact absurd hle (Nat.not_succ_le_zero _)
      | succ fuel' =>
          have hle' := Nat.le_of_succ_le_succ hle
          cases count with
          | zero => exact .pure ()
          | succ count =>
              exact (agrees_decodeField (agrees_decodeBody fun count => ih hle' count)).bind
                fun field => (agrees_onMessage fun m => m.pushDecoded field).bind
                  fun _ => ih hle' count

/-- Whatever is behind the buffer: unless the decoder stops at a memory fault it answers, or
throws, what the decoder answers or throws that would read on, and leaves the same message and
the same cursor. -/
theorem agrees_decode : AgreesDecode Message.decode decode := by
  refine Exec.Follows.get fun s t hst => ?_
  have hview : t.source.view = s.buffer := hst.2
  have hle : s.buffer.rest.length ≤ t.source.unread.length := by
    rw [length_unread, hview, ByteStorage.rest, List.length_drop]
    omega
  refine agrees_addressingDetails.onSource.bind fun details => ?_
  obtain ⟨status, addressing⟩ := details
  cases status with
  | complete =>
      cases addressing with
      | none => exact .pure _
      | some a =>
          refine (agrees_onMessage fun m => { m with flags := a.flags }).bind fun _ => ?_
          refine (agrees_copyFrom a.subject a.subjectLength).onSource.bind fun subject => ?_
          refine Exec.Follows.bind_right (fun s t hst => ?_) fun _ => ?_
          · exact ⟨(), { t with source := t.source.noted .subject a.subjectLength }, rfl, hst⟩
          refine (agrees_onMessage fun m =>
            { m with subject := Message.copyFront m.subject subject }).bind fun _ => ?_
          exact agrees_decodeBody (agrees_decodeFields hle)
  | incomplete => exact .pure _
  | corrupt => exact .throw _

/-- Over a buffer that the decoder stays inside, the memory behind it is without effect. -/
theorem decode_eq_of_inside {target : Message} {view : ByteStorage}
    (h : target.DecodesInside view) (behind : Bytes) (copies : List Copy) :
    (decode.run ⟨target, ⟨view, behind, copies⟩⟩).1 = (Message.decode.run ⟨target, view⟩).1 ∧
      ExposesDecode (Message.decode.run ⟨target, view⟩).2
        (decode.run ⟨target, ⟨view, behind, copies⟩⟩).2 := by
  obtain ⟨e, he, hstops⟩ | ⟨hanswer, hstate⟩ := agrees_decode ⟨target, view⟩
    ⟨target, ⟨view, behind, copies⟩⟩ ⟨rfl, rfl⟩
  · rw [Fault.Memory, h.1 e hstops] at he
    cases he
  · exact ⟨hanswer.symm, hstate⟩

/-! ## The client -/

def ExposesReceiving (s : TCPTransport.Receiving) (t : Receiving) : Prop :=
  t.transport = s.transport ∧ Exposes s.storage t.source

theorem agrees_decodeInto (keeps : Nat → Bool) (i : Nat) :
    Exec.Follows ExposesReceiving Fault.Memory (TCPTransport.decodeInto keeps i)
      (decodeInto keeps i) := by
  intro s t hst
  have hdecode := agrees_decode ⟨s.transport.pool.object i, s.storage⟩
    ⟨s.transport.pool.object i, t.source⟩ ⟨rfl, hst.2⟩
  simp only [TCPTransport.decodeInto, decodeInto]
  rw [hst.1]
  cases hrun : Message.decode.run ⟨s.transport.pool.object i, s.storage⟩ with
  | mk answer d =>
      cases hrun' : decode.run ⟨s.transport.pool.object i, t.source⟩ with
      | mk answer' d' =>
          rw [hrun, hrun'] at hdecode
          obtain ⟨e, he, hlimit⟩ | ⟨hanswer, hmsg, hsource⟩ := hdecode
          · dsimp only at hlimit
            subst hlimit
            cases e with
            | exception what => cases he
            | _ => exact .inl ⟨_, he, rfl⟩
          · obtain ⟨msg', source⟩ := d'
            dsimp only at hanswer hmsg hsource
            subst hanswer hmsg
            cases answer with
            | ok answer =>
                cases answer with
                | true => exact .inr ⟨rfl, rfl, hsource⟩
                | false => exact .inr ⟨rfl, rfl, congrArg ByteStorage.resetRead hsource⟩
            | error e => cases e <;> exact .inr ⟨rfl, rfl, hsource⟩

/-- A round of the client. -/
theorem agrees_processData (keeps : Nat → Bool) :
    Exec.Follows ExposesReceiving Fault.Memory (TCPTransport.processData keeps)
      (processData keeps) := by
  refine Exec.Follows.bind (agrees_haveCompleteMessage.zoom (fun _ _ hst => hst.2)
    fun _ _ _ _ hst hru => ⟨hst.1, hru⟩) fun details => ?_
  obtain ⟨status, msgLength⟩ := details
  cases status with
  | complete =>
      refine Exec.Follows.bind ((Exec.Follows.refl Pool.allocate).zoom
        (fun _ _ hst => by rw [hst.1]) fun _ _ _ _ hst hpool => ⟨?_, hst.2⟩) fun i => ?_
      · rw [hst.1, hpool]
      refine Exec.Follows.bind (Exec.Follows.modify fun _ _ hst =>
        ⟨hst.1, congrArg ByteStorage.mark hst.2⟩) fun _ => ?_
      exact agrees_decodeInto keeps i
  | incomplete => exact .pure _
  | corrupt => exact .pure _

/-! ## The router -/

def ExposesRouting (s : Bootstrap.Routing) (t : Routing) : Prop :=
  t.router = s.router ∧ Exposes s.storage t.source

theorem getDataField_memory {message : Message} {identifier : CString} {e : Fault}
    (h : message.getDataField identifier = .error e) : e.Memory := by
  rw [Message.getDataField] at h
  split at h
  · cases h
  · split at h
    · cases h
    · cases h
    · cases h
      exact rfl
    · cases h
      exact rfl

theorem readFrom_memory {region : Bytes} {e : Fault} (h : CString.readFrom region = .error e) :
    e.Memory := by
  rw [CString.readFrom] at h
  split at h
  · cases h
  · cases h
    exact rfl

/-- What the router cannot read of a registration is behind its value, or is no value. -/
theorem handleAdminMessage_memory {subject : Subject UInt64} {message : Message}
    {subscriptions : Subscriptions} {e : Fault}
    (h : PeerConnection.handleAdminMessage subject message subscriptions = .error e) :
    e.Memory := by
  rw [PeerConnection.handleAdminMessage] at h
  by_cases hregister : subject.subjectHash = PeerConnection.registerObserver.subjectHash
  · rw [if_pos hregister] at h
    cases hfield : message.getDataField (.ofString "subject") with
    | error e' =>
        rw [hfield] at h
        cases h
        exact getDataField_memory hfield
    | ok found =>
        rw [hfield] at h
        cases found with
        | none => cases h
        | some data =>
            dsimp only at h
            split at h
            · cases h
            · cases hread : CString.readFrom data with
              | ok subject => rw [hread] at h; cases h
              | error e' =>
                  rw [hread] at h
                  cases h
                  exact readFrom_memory hread
  · rw [if_neg hregister, if_neg hregister] at h
    cases h

/-- What is read of a registration is read of it whatever is behind. -/
theorem agrees_processAdmin (stray : Stray) (source : Nat) (subject : Subject UInt64)
    (msgData : Exposed) :
    Exec.Follows ExposesRouting Fault.Memory
      (Bootstrap.processAdmin source subject msgData.view)
      (processAdmin stray source subject msgData) := by
  intro s t hst
  have hdecode := agrees_decode ⟨Message.new, msgData.view⟩ ⟨Message.new, msgData⟩ ⟨rfl, rfl⟩
  simp only [Bootstrap.processAdmin, processAdmin]
  rw [hst.1]
  cases hrun : Message.decode.run ⟨Message.new, msgData.view⟩ with
  | mk answer d =>
      cases hrun' : decode.run ⟨Message.new, msgData⟩ with
      | mk answer' d' =>
          rw [hrun, hrun'] at hdecode
          obtain ⟨e, he, hlimit⟩ | ⟨hanswer, hmsg, -⟩ := hdecode
          · dsimp only at hlimit
            subst hlimit
            exact .inl ⟨e, he, rfl⟩
          · obtain ⟨msg', source'⟩ := d'
            dsimp only at hanswer hmsg
            subst hanswer hmsg
            cases answer with
            | error e => exact .inr ⟨rfl, hst⟩
            | ok answer =>
                cases answer with
                | false => exact .inr ⟨rfl, hst⟩
                | true =>
                    dsimp only
                    rw [handleAdminMessage]
                    cases hhandled : PeerConnection.handleAdminMessage subject d.msg
                        (s.router.peer source).subscriptions with
                    | ok subscriptions => exact .inr ⟨rfl, rfl, hst.2⟩
                    | error e => exact .inl ⟨e, handleAdminMessage_memory hhandled, rfl⟩

theorem agrees_adminBranch (stray : Stray) (source : Nat) (subject : Subject UInt64)
    (msgData : Exposed) :
    Exec.Follows ExposesRouting Fault.Memory
      (do
        let status ← Bootstrap.processAdmin source subject msgData.view
        Bootstrap.onStorage (Exec.modify ByteStorage.mark)
        pure status)
      (do
        let status ← processAdmin stray source subject msgData
        onRouted (Exec.modify mark)
        pure status) := by
  refine (agrees_processAdmin stray source subject msgData).bind fun status => ?_
  refine Exec.Follows.bind (fun s t hst => ?_) fun _ => .pure status
  exact .inr ⟨rfl, hst.1, congrArg ByteStorage.mark hst.2⟩

/-- A call of the router's, whose cursor is inside its buffer. -/
theorem agrees_processBuffer (stray : Stray) (source : Nat) {s : Bootstrap.Routing} {t : Routing}
    (hst : ExposesRouting s t) (hin : s.storage.InRange) :
    (∃ e : Fault, e.Memory ∧ ((Bootstrap.processBuffer source).run s).1 = .error e) ∨
      ((Bootstrap.processBuffer source).run s).1 = ((processBuffer stray source).run t).1 ∧
        ExposesRouting ((Bootstrap.processBuffer source).run s).2
          ((processBuffer stray source).run t).2 := by
  obtain ⟨router, storage⟩ := s
  obtain ⟨router', ⟨storage', behind, copies⟩⟩ := t
  obtain ⟨hrouter, hstorage⟩ := hst
  change router' = router at hrouter
  change storage' = storage at hstorage
  subst router' storage'
  cases hstatus : frameStatus storage.rest with
  | mk status n =>
      by_cases hcomplete : status = .complete
      · subst hcomplete
        rw [processBuffer_complete stray source hin hstatus]
        by_cases hlength : 0 < subjectLengthAt storage.rest
        · by_cases hnul : (0 : UInt8) ∈ storage.rest.drop MsgAddressing.size
          · have hread : CString.readFrom (storage.rest.drop MsgAddressing.size) =
                .ok (.ofArray (storage.rest.drop MsgAddressing.size)) := by
              rw [CString.readFrom, if_pos hnul]
            have hbehind : subjectIn (storage.rest ++ behind) =
                .ok (.new stringHash (.ofArray (storage.rest.drop MsgAddressing.size))) := by
              rw [subjectIn, List.drop_append_of_le_length (size_le_of_complete hstatus).1,
                CString.readFrom_append hread]
              rfl
            rw [Bootstrap.processBuffer_addressed source hin hstatus hlength hread, if_pos hlength]
            dsimp only
            rw [hbehind]
            dsimp only
            generalize Subject.new stringHash (CString.ofArray _) = subject
            cases subject.isAdmin with
            | true =>
                rw [if_pos rfl, if_pos rfl]
                exact agrees_adminBranch stray source subject
                  ⟨.ofBytes (storage.rest.take n), storage.rest.drop n ++ behind, []⟩ _ _ ⟨rfl, rfl⟩
            | false =>
                rw [if_neg Bool.false_ne_true, if_neg Bool.false_ne_true]
                exact .inr ⟨rfl, rfl, rfl⟩
          · exact .inl ⟨.outOfBounds, rfl,
              Bootstrap.processBuffer_unterminated source hin hstatus hlength hnul⟩
        · rw [Bootstrap.processBuffer_complete source hin hstatus, if_neg hlength, if_neg hlength]
          exact .inr ⟨rfl, rfl, rfl⟩
      · rw [Bootstrap.processBuffer_other source hin hstatus hcomplete,
          processBuffer_other stray source hin hstatus hcomplete]
        exact .inr ⟨rfl, rfl, rfl⟩

/-- And so it is with a call of the router's that stays inside. -/
theorem processBuffer_eq_of_inside (stray : Stray) {source : Nat} {s : Bootstrap.Routing}
    {t : Routing} (hst : ExposesRouting s t) (hin : s.storage.InRange)
    (h : Bootstrap.ProcessesInside source s) :
    ((processBuffer stray source).run t).1 = ((Bootstrap.processBuffer source).run s).1 ∧
      ExposesRouting ((Bootstrap.processBuffer source).run s).2
        ((processBuffer stray source).run t).2 := by
  obtain ⟨e, he, hstops⟩ | ⟨hanswer, hstate⟩ := agrees_processBuffer stray source hst hin
  · rw [Fault.Memory, h.memory e hstops] at he
    cases he
  · exact ⟨hanswer.symm, hstate⟩

end Exposed

end Fastpath
