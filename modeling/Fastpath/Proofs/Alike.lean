import Fastpath.Model.Memory
import Fastpath.Proofs.Bounds

/-!
# The decoder with its memory, and without

The two decoders stop in the same places and read the same fields. The one with
its memory copies into arrays of fixed size; whatever is read from bytes that
another check has bounded fits, and where a copy does not, both stop with an
overrun.
-/

namespace Fastpath

open Fastpath.Lib

/-! ## Steps on the buffer -/

theorem ByteStorage.peekBytes_outOfBounds (offset n : Nat) :
    Exec.Stops (· = .outOfBounds) (ByteStorage.peekBytes offset n) := by
  intro s e s' hrun
  rw [ByteStorage.peekBytes] at hrun
  dsimp only at hrun
  split at hrun
  · cases hrun
  · cases hrun
    rfl

theorem ByteStorage.peekScalar_outOfBounds (offset w : Nat) :
    Exec.Stops (· = .outOfBounds) (ByteStorage.peekScalar offset w) :=
  (peekBytes_outOfBounds offset w).bind fun _ => .pure _

theorem peekFieldHeader_outOfBounds : Exec.Stops (· = .outOfBounds) peekFieldHeader :=
  (ByteStorage.peekScalar_outOfBounds _ _).bind fun _ =>
    (ByteStorage.peekScalar_outOfBounds _ _).bind fun _ =>
      (ByteStorage.peekScalar_outOfBounds _ _).bind fun _ => .pure _

theorem Fault.ne_overrun {e : Fault} (h : e = .outOfBounds) : e ≠ .overrun := by
  rw [h]
  exact Fault.noConfusion

theorem ByteStorage.stops_peekBytes (offset n : Nat) :
    Exec.Stops (· ≠ .overrun) (ByteStorage.peekBytes offset n) :=
  (peekBytes_outOfBounds offset n).mono fun _ => Fault.ne_overrun

theorem ByteStorage.stops_peekScalar (offset w : Nat) :
    Exec.Stops (· ≠ .overrun) (ByteStorage.peekScalar offset w) :=
  (peekScalar_outOfBounds offset w).mono fun _ => Fault.ne_overrun

theorem ByteStorage.stops_readScalar (w : Nat) :
    Exec.Stops (· ≠ .overrun) (ByteStorage.readScalar w) :=
  (stops_peekScalar 0 w).bind fun _ => .bind (.modify _) fun _ => .pure _

theorem ByteStorage.stops_copyFrom (position n : Nat) :
    Exec.Stops (· ≠ .overrun) (ByteStorage.copyFrom position n) := by
  intro s e s' hrun
  obtain ⟨hanswer, -⟩ := Prod.mk.inj hrun
  exact stops_peekBytes 0 n _ e _ (Prod.ext hanswer rfl)

theorem stops_peekFieldHeader : Exec.Stops (· ≠ .overrun) peekFieldHeader :=
  peekFieldHeader_outOfBounds.mono fun _ => Fault.ne_overrun

theorem stops_haveCompleteMessage : Exec.Stops (· ≠ .overrun) haveCompleteMessage := by
  refine .bind .get fun buffer => ?_
  split
  · refine .bind (ByteStorage.stops_peekScalar _ _) fun chk => ?_
    split
    · exact .pure _
    · refine .bind (ByteStorage.stops_peekScalar _ _) fun field => ?_
      dsimp only
      split
      · exact .pure _
      · exact .pure _
  · exact .pure _

theorem stops_addressingDetails : Exec.Stops (· ≠ .overrun) addressingDetails := by
  refine .bind stops_haveCompleteMessage fun found => ?_
  obtain ⟨status, msgLength⟩ := found
  cases status with
  | complete =>
      exact .bind (.modify _) fun _ => .bind (.modify _) fun _ =>
        .bind (ByteStorage.stops_peekScalar _ _) fun _ => .bind (.modify _) fun _ =>
        .bind (.modify _) fun _ => .bind (ByteStorage.stops_peekScalar _ _) fun _ =>
        .bind (.modify _) fun _ => .bind .get fun _ => .bind (.modify _) fun _ => .pure _
  | incomplete => exact .pure _
  | corrupt => exact .pure _

theorem leNat_take_lt (r : Bytes) (w : Nat) : leNat (r.take w) < 256 ^ w := by
  refine Nat.lt_of_lt_of_le (leNat_lt _) (Nat.pow_le_pow_right (by decide) ?_)
  rw [List.length_take]
  exact Nat.min_le_left _ _

theorem ByteStorage.peekScalar_lt {offset w n : Nat} {b b' : ByteStorage}
    (h : (ByteStorage.peekScalar offset w).run b = (.ok n, b')) : n < 256 ^ w := by
  rw [(of_peekScalar_ok h).1]
  exact leNat_take_lt _ w

theorem ByteStorage.readScalar_lt {w n : Nat} {b b' : ByteStorage}
    (h : (ByteStorage.readScalar w).run b = (.ok n, b')) : n < 256 ^ w := by
  rw [(of_readScalar_ok h).1]
  exact leNat_take_lt _ w

theorem DecodeState.onBuffer_bind {α β : Type} (x : Exec Fault ByteStorage α)
    (f : α → Exec Fault ByteStorage β) :
    DecodeState.onBuffer (x >>= f) =
      DecodeState.onBuffer x >>= fun a => DecodeState.onBuffer (f a) := by
  have hput : ∀ (b b' : ByteStorage) (s : DecodeState),
      (fun b (s : DecodeState) => { s with buffer := b }) b
        ((fun b (s : DecodeState) => { s with buffer := b }) b' s) =
      (fun b (s : DecodeState) => { s with buffer := b }) b s := fun _ _ _ => rfl
  exact Exec.zoom_bind (fun _ _ => rfl) hput x f

def Reading.withMemory (r : Reading) (memory : Memory) : Reading :=
  { r with object := { r.object with memory := memory } }

theorem Reading.onMemory_ok {α : Type} {x : Exec Fault Memory α} {r : Reading} {a : α} {m : Memory}
    (h : x.run r.object.memory = (.ok a, m)) :
    (Reading.onMemory x).run r = (.ok a, r.withMemory m) := by
  simp only [onMemory, onObject, Object.onMemory, Exec.zoom, h, withMemory]

theorem Reading.onMemory_error {α : Type} {x : Exec Fault Memory α} {r : Reading} {e : Fault}
    {m : Memory} (h : x.run r.object.memory = (.error e, m)) :
    (Reading.onMemory x).run r = (.error e, r.withMemory m) := by
  simp only [onMemory, onObject, Object.onMemory, Exec.zoom, h, withMemory]

/-- The subject's length has two bytes on the wire. -/
theorem addressingDetails_subject (b : ByteStorage) (found : DecodeStatus × Option Addressing)
    (b' : ByteStorage) (h : addressingDetails.run b = (.ok found, b')) :
    ∀ a, found.2 = some a → a.subjectLength ≤ FixedArray.subject.size := by
  obtain ⟨⟨status, msgLength⟩, b₁, -, h⟩ := Exec.of_bind_ok h
  intro a ha
  cases status with
  | complete =>
      dsimp only at h
      rw [Exec.bind_ok (Exec.modify_run _ _), Exec.bind_ok (Exec.modify_run _ _)] at h
      obtain ⟨flags, b₂, -, h⟩ := Exec.of_bind_ok h
      rw [Exec.bind_ok (Exec.modify_run _ _), Exec.bind_ok (Exec.modify_run _ _)] at h
      obtain ⟨subjectLength, b₃, hlength, h⟩ := Exec.of_bind_ok h
      rw [Exec.bind_ok (Exec.modify_run _ _), Exec.bind_ok (Exec.get_run _),
        Exec.bind_ok (Exec.modify_run _ _)] at h
      cases h
      cases ha
      exact Nat.le_of_lt_succ (ByteStorage.peekScalar_lt hlength)
  | incomplete =>
      cases h
      cases ha
  | corrupt =>
      cases h
      cases ha

/-- The same message and the same buffer, and every copy so far has fitted. -/
structure Same (r : Reading) (s : DecodeState) : Prop where
  msg : r.object.msg = s.msg
  buffer : r.buffer = s.buffer
  fit : ∀ c ∈ r.object.memory.copies, c.Fits

/-- Behind a stop: some copy has not fitted exactly if that was the reason. -/
structure Stopped (e : Fault) (r : Reading) (s : DecodeState) : Prop where
  msg : r.object.msg = s.msg
  buffer : r.buffer = s.buffer
  fit : (∀ c ∈ r.object.memory.copies, c.Fits) ↔ e ≠ .overrun

section Alike

variable {α β : Type}

theorem Same.stopped {e : Fault} {r : Reading} {s : DecodeState} (h : Same r s)
    (he : e ≠ .overrun) : Stopped e r s :=
  ⟨h.msg, h.buffer, fun _ => he, fun _ => h.fit⟩

theorem onBuffer_alike {x : Exec Fault ByteStorage α} {Q : α → Prop}
    (hx : Exec.Stops (· ≠ .overrun) x) (hq : ∀ s a s', x.run s = (.ok a, s') → Q a) :
    Exec.Relates Same Stopped (fun a b => a = b ∧ Q a) (Reading.onBuffer x)
      (DecodeState.onBuffer x) :=
  Exec.Relates.zoom (fun _ _ h => h.buffer) (fun _ _ _ h => ⟨h.msg, rfl, h.fit⟩)
    (fun _ _ _ he h => h.stopped he) hx hq

/-- The rule for a step on the buffer that both take. -/
theorem bind_onBuffer {x : Exec Fault ByteStorage α} {f : α → Exec Fault Reading β} {γ : Type}
    {g : α → Exec Fault DecodeState γ} {A : β → γ → Prop} (hx : Exec.Stops (· ≠ .overrun) x)
    (hf : ∀ a, Exec.Relates Same Stopped A (f a) (g a)) :
    Exec.Relates Same Stopped A (Reading.onBuffer x >>= f) (DecodeState.onBuffer x >>= g) := by
  refine (onBuffer_alike hx (Q := fun _ => True) fun _ _ _ _ => trivial).bind ?_
  intro a _ h
  obtain ⟨rfl, -⟩ := h
  exact hf a

theorem throw_alike {A : α → β → Prop} {e : Fault} (he : e ≠ .overrun) :
    Exec.Relates Same Stopped A (Exec.throw e) (Exec.throw e) :=
  .throw fun _ _ h => h.stopped he

/-- A step in memory that always answers and copies nothing. -/
def Memory.Quiet (x : Exec Fault Memory α) : Prop :=
  ∀ m, ∃ a m', x.run m = (.ok a, m') ∧ m'.copies = m.copies

theorem bind_onMemory {x : Exec Fault Memory α} {f : α → Exec Fault Reading β} {γ : Type}
    {y : Exec Fault DecodeState γ} {A : β → γ → Prop} (hx : Memory.Quiet x)
    (hf : ∀ a, Exec.Relates Same Stopped A (f a) y) :
    Exec.Relates Same Stopped A (Reading.onMemory x >>= f) y := by
  refine .bind_left (fun r s h => ?_) hf
  obtain ⟨a, m, hrun, hcopies⟩ := hx r.object.memory
  exact ⟨a, _, Reading.onMemory_ok hrun, h.msg, h.buffer, fun c hc => h.fit c (hcopies ▸ hc)⟩

theorem Memory.copyInto_ok (array : FixedArray) {length : Nat} (h : length ≤ array.size)
    (m : Memory) : (Memory.copyInto array length).run m =
      (.ok (), { m with copies := m.copies ++ [⟨array, length⟩] }) := by
  rw [Memory.copyInto, Exec.bind_ok (Exec.modify_run _ _), if_pos h, Exec.pure_run]

theorem Memory.copyInto_error (array : FixedArray) {length : Nat} (h : ¬ length ≤ array.size)
    (m : Memory) : (Memory.copyInto array length).run m =
      (.error .overrun, { m with copies := m.copies ++ [⟨array, length⟩] }) := by
  rw [Memory.copyInto, Exec.bind_ok (Exec.modify_run _ _), if_neg h, Exec.throw_run]

theorem fits_concat {copies : List Copy} {array : FixedArray} {length : Nat}
    (h : ∀ c ∈ copies, c.Fits) (hfits : length ≤ array.size) :
    ∀ c ∈ copies ++ [⟨array, length⟩], c.Fits := by
  rw [List.forall_mem_append]
  exact ⟨h, List.forall_mem_singleton.mpr hfits⟩

/-- A copy that fits. -/
theorem bind_copyInto {array : FixedArray} {length : Nat} {f : Unit → Exec Fault Reading α}
    {y : Exec Fault DecodeState β} {A : α → β → Prop} (hfits : length ≤ array.size)
    (hf : Exec.Relates Same Stopped A (f ()) y) :
    Exec.Relates Same Stopped A (Reading.onMemory (Memory.copyInto array length) >>= f) y := by
  refine .bind_left (fun r s h => ?_) fun _ => hf
  exact ⟨(), _, Reading.onMemory_ok (Memory.copyInto_ok array hfits _), h.msg, h.buffer,
    fits_concat h.fit hfits⟩

/-- A copy that does not. -/
theorem copyInto_overrun {array : FixedArray} {length : Nat} {f : Unit → Exec Fault Reading α}
    {A : α → β → Prop} (hlong : ¬ length ≤ array.size) :
    Exec.Relates Same Stopped A (Reading.onMemory (Memory.copyInto array length) >>= f)
      (Exec.throw .overrun) := by
  intro r s h
  have hrun := Memory.copyInto_error array hlong r.object.memory
  refine .inr ⟨.overrun, _, s, Exec.bind_error (Reading.onMemory_error hrun), rfl,
    h.msg, h.buffer, fun hall => ?_, fun hne => absurd rfl hne⟩
  exact absurd (hall ⟨array, length⟩ (List.mem_append_right _ List.mem_cons_self)) hlong

end Alike

/-! ## The constructors -/

section Constructors

variable (layout : Layout) (malloc : Malloc)

theorem Memory.quiet_allocate (size : Nat) : Memory.Quiet (Memory.allocate malloc size) :=
  fun _ => ⟨_, _, rfl, rfl⟩

theorem Memory.quiet_fillStorage (allocation length : Nat) :
    Memory.Quiet (Memory.fillStorage malloc allocation length) := by
  intro m
  rw [Memory.fillStorage, Exec.bind_ok rfl]
  dsimp only
  split
  · exact ⟨(), _, rfl, rfl⟩
  · exact ⟨(), _, rfl, rfl⟩

theorem readFieldHeader_alike :
    Exec.Relates Same Stopped Eq Reading.readFieldHeader
      (DecodeState.onBuffer readFieldHeader) := by
  rw [Reading.readFieldHeader, readFieldHeader, DecodeState.onBuffer_bind]
  refine bind_onBuffer .get fun buffer => ?_
  split
  · simp only [DecodeState.onBuffer_bind]
    refine bind_onBuffer (ByteStorage.stops_readScalar 1) fun type => ?_
    refine (onBuffer_alike (ByteStorage.stops_readScalar 1)
      fun _ _ _ h => ByteStorage.readScalar_lt h).bind ?_
    intro identifierLength _ h
    obtain ⟨rfl, hlength⟩ := h
    refine bind_onBuffer (ByteStorage.stops_readScalar 4) fun dataLength => ?_
    refine bind_onBuffer .get fun buffer => ?_
    split
    · simp only [DecodeState.onBuffer_bind]
      refine bind_onBuffer (ByteStorage.stops_peekBytes _ _) fun identifier => ?_
      refine bind_copyInto hlength ?_
      refine bind_onBuffer (.modify _) fun _ => ?_
      refine bind_onBuffer .get fun buffer => ?_
      split
      · exact .pure rfl
      · exact throw_alike Fault.noConfusion
    · exact throw_alike Fault.noConfusion
  · exact throw_alike Fault.noConfusion

/-- The field made, without its block. -/
def Makes (made : Field × Block) (field : Field) : Prop := made.1 = field

theorem createScalarField_alike :
    Exec.Relates Same Stopped Makes (Reading.createScalarField layout malloc)
      (DecodeState.onBuffer createScalarField) := by
  rw [createScalarField, DecodeState.onBuffer_bind]
  refine bind_onMemory (Memory.quiet_allocate malloc _) fun block => ?_
  refine (readFieldHeader_alike).bind ?_
  rintro header _ rfl
  rw [DecodeState.onBuffer_bind]
  refine bind_onBuffer (ByteStorage.stops_peekBytes _ _) fun data => ?_
  split
  · next hfits =>
      rw [DecodeState.onBuffer_bind]
      refine bind_copyInto hfits (bind_onBuffer (.modify _) fun _ => ?_)
      exact .pure rfl
  · next hlong => exact copyInto_overrun hlong

theorem createDataField_alike (size : Nat) :
    Exec.Relates Same Stopped Makes (Reading.createDataField layout malloc size)
      (DecodeState.onBuffer (createDataField size)) := by
  rw [createDataField, DecodeState.onBuffer_bind]
  refine bind_onMemory (Memory.quiet_allocate malloc _) fun block => ?_
  refine (readFieldHeader_alike).bind ?_
  rintro header _ rfl
  rw [DecodeState.onBuffer_bind]
  refine bind_onBuffer (ByteStorage.stops_peekBytes _ _) fun value => ?_
  split
  · split
    · next hfits =>
        rw [DecodeState.onBuffer_bind]
        refine bind_copyInto hfits (bind_onBuffer (.modify _) fun _ => ?_)
        exact .pure rfl
    · next hlong => exact copyInto_overrun hlong
  · rw [DecodeState.onBuffer_bind]
    refine bind_onMemory (Memory.quiet_fillStorage malloc _ _) fun _ => ?_
    refine bind_onBuffer (.modify _) fun _ => ?_
    exact .pure rfl

theorem createDateTimeField_alike :
    Exec.Relates Same Stopped Makes (Reading.createDateTimeField layout malloc)
      (DecodeState.onBuffer createDateTimeField) := by
  simp only [createDateTimeField, DecodeState.onBuffer_bind]
  refine bind_onMemory (Memory.quiet_allocate malloc _) fun block => ?_
  refine (readFieldHeader_alike).bind ?_
  rintro header _ rfl
  refine bind_onBuffer (ByteStorage.stops_readScalar 8) fun seconds => ?_
  refine bind_onBuffer (ByteStorage.stops_readScalar 8) fun microseconds => ?_
  exact .pure rfl

/-- Behind a sub-message: the buffer and the copies are the inner ones. -/
def Reading.behind (r sub : Reading) : Reading where
  object := ⟨r.object.msg, { r.object.memory with copies := sub.object.memory.copies }⟩
  buffer := sub.buffer

theorem onFresh_alike {body : Exec Fault Reading Bool} {body' : Exec Fault DecodeState Bool}
    (hbody : Exec.Relates Same Stopped Eq body body') :
    Exec.Relates Same Stopped Eq (Reading.onFresh malloc body) (DecodeState.onFresh body') := by
  intro r s h
  obtain ⟨a, sub, _, sub', hrun, hrun', rfl, hsub⟩ | ⟨e, sub, sub', hrun, hrun', hsub⟩ :=
    hbody ⟨⟨.new, .new malloc r.object.memory.copies⟩, r.buffer⟩ ⟨Message.new, s.buffer⟩
      ⟨rfl, h.buffer, h.fit⟩
  · have hleft : (Reading.onFresh malloc body).run r = (.ok sub.object.msg, r.behind sub) := by
      simp only [Reading.onFresh, hrun, Reading.behind]
    have hright : (DecodeState.onFresh body').run s = (.ok sub'.msg, ⟨s.msg, sub'.buffer⟩) := by
      simp only [DecodeState.onFresh, hrun']
    exact .inl ⟨_, _, _, _, hleft, hright, hsub.msg, h.msg, hsub.buffer, hsub.fit⟩
  · have hleft : (Reading.onFresh malloc body).run r = (.error e, r.behind sub) := by
      simp only [Reading.onFresh, hrun, Reading.behind]
    have hright : (DecodeState.onFresh body').run s = (.error e, ⟨s.msg, sub'.buffer⟩) := by
      simp only [DecodeState.onFresh, hrun']
    exact .inr ⟨e, _, _, hleft, hright, h.msg, hsub.buffer, hsub.fit⟩

theorem createMessageField_alike {body : Exec Fault Reading Bool}
    {body' : Exec Fault DecodeState Bool} (hbody : Exec.Relates Same Stopped Eq body body') :
    Exec.Relates Same Stopped Makes (Reading.createMessageField layout malloc body)
      (createMessageField body') := by
  refine bind_onMemory (Memory.quiet_allocate malloc _) fun block => ?_
  refine (readFieldHeader_alike).bind ?_
  rintro header _ rfl
  refine (onFresh_alike malloc hbody).bind ?_
  rintro msg _ rfl
  exact .pure rfl

theorem decodeField_alike {body : Exec Fault Reading Bool} {body' : Exec Fault DecodeState Bool}
    (hbody : Exec.Relates Same Stopped Eq body body') :
    Exec.Relates Same Stopped Makes (Reading.decodeField layout malloc body)
      (decodeField body') := by
  refine bind_onBuffer stops_peekFieldHeader fun header => ?_
  obtain ⟨type, identifierLength, dataSize⟩ := header
  cases type with
  | string => exact createDataField_alike layout malloc dataSize
  | data => exact createDataField_alike layout malloc dataSize
  | dateTime => exact createDateTimeField_alike layout malloc
  | message => exact createMessageField_alike layout malloc hbody
  | _ => exact createScalarField_alike layout malloc

theorem decodeBody_alike {fields : Nat → Exec Fault Reading Unit}
    {fields' : Nat → Exec Fault DecodeState Unit}
    (hfields : ∀ count, Exec.Relates Same Stopped Eq (fields count) (fields' count)) :
    Exec.Relates Same Stopped Eq (Reading.decodeBody fields) (decodeBody fields') := by
  have hget : Exec.Relates Same Stopped (fun b s => b = s.buffer)
      (Reading.onBuffer Exec.get) (Exec.get : Exec Fault DecodeState DecodeState) :=
    fun r s h => .inl ⟨r.buffer, r, s, s, rfl, rfl, h.buffer, h⟩
  refine hget.bind ?_
  rintro _ s rfl
  split
  · refine bind_onBuffer (ByteStorage.stops_readScalar 1) fun chk => ?_
    split
    · exact throw_alike Fault.noConfusion
    · refine bind_onBuffer (ByteStorage.stops_readScalar 4) fun count => ?_
      exact (hfields count).bind fun _ _ _ => .pure rfl
  · exact .pure rfl

theorem decodeFields_alike (fuel count : Nat) :
    Exec.Relates Same Stopped Eq (Reading.decodeFields layout malloc fuel count)
      (decodeFields fuel count) := by
  induction fuel generalizing count with
  | zero =>
      cases count with
      | zero => exact .pure rfl
      | succ count => exact throw_alike Fault.noConfusion
  | succ fuel ih =>
      cases count with
      | zero => exact .pure rfl
      | succ count =>
          refine (decodeField_alike layout malloc (decodeBody_alike ih)).bind ?_
          rintro made _ rfl
          refine Exec.Relates.bind (A := Eq) ?_ fun _ _ _ => ih count
          intro r s h
          refine .inl ⟨(), _, (), _, rfl, rfl, rfl, ?_⟩
          exact ⟨congrArg (Message.pushDecoded · made.1) h.msg, h.buffer, h.fit⟩

/-- The two decoders do the same, and of the copies one has not fitted exactly if both stop
with an overrun. -/
theorem decode_alike :
    Exec.Relates Same Stopped Eq (Reading.decode layout malloc) Message.decode := by
  have hget : Exec.Relates Same Stopped (fun r s => r.buffer = s.buffer)
      (Exec.get : Exec Fault Reading Reading) (Exec.get : Exec Fault DecodeState DecodeState) :=
    fun r s h => .inl ⟨r, r, s, s, rfl, rfl, h.buffer, h⟩
  refine hget.bind fun r s hbuffer => ?_
  refine (onBuffer_alike stops_addressingDetails addressingDetails_subject).bind ?_
  rintro ⟨status, addressing⟩ _ ⟨rfl, hsubject⟩
  cases status with
  | complete =>
      cases addressing with
      | none => exact .pure rfl
      | some a =>
          refine (Exec.Relates.modify fun r s h => ?_).bind fun _ _ _ => ?_
          · exact ⟨congrArg (fun m : Message => { m with flags := a.flags }) h.msg, h.buffer, h.fit⟩
          refine bind_onBuffer (ByteStorage.stops_copyFrom _ _) fun subject => ?_
          refine bind_copyInto (hsubject a rfl) ?_
          refine (Exec.Relates.modify fun r s h => ?_).bind fun _ _ _ => ?_
          · exact ⟨congrArg (fun m : Message =>
              { m with subject := Message.copyFront m.subject subject }) h.msg, h.buffer, h.fit⟩
          rw [hbuffer]
          exact decodeBody_alike (decodeFields_alike layout malloc _)
  | corrupt => exact throw_alike Fault.noConfusion
  | incomplete => exact .pure rfl

end Constructors

end Fastpath
