import Fastpath.Proofs.Frame
import Fastpath.Proofs.RoundTrip
import Fastpath.Spec.Extent

/-!
# Where decoding stays inside its bytes

The decoder and the walk of `Extent` step alike. `Tracks` says so for one run:
where the walk ends within the bytes the run answers, with its cursor at the
same place; where the walk is refused the run throws, with its cursor still
inside; and where the walk goes past the end, so does the run. It is closed
under sequencing, so the decoder is followed construct by construct, and the
walk decides exactly which buffers are read within their bounds.
-/

namespace Fastpath

open Fastpath.Lib

namespace ByteStorage

def InRange (s : ByteStorage) : Prop := s.read ≤ s.bytes.length

theorem InRange.advanceRead {s : ByteStorage} (h : s.InRange) {n : Nat} (hn : n ≤ s.rest.length) :
    (s.advanceRead n).InRange := by
  rw [length_rest] at hn
  rw [InRange] at h
  show s.read + n ≤ s.bytes.length
  omega

theorem peekBytes_past {s : ByteStorage} {offset n : Nat} (hpos : 0 < n)
    (h : s.rest.length < offset + n) : (peekBytes offset n).run s = (.error .outOfBounds, s) := by
  rw [length_rest] at h
  simp only [peekBytes]
  rw [if_neg (by omega)]

theorem peekScalar_past {s : ByteStorage} {offset w : Nat} (hpos : 0 < w)
    (h : s.rest.length < offset + w) : (peekScalar offset w).run s = (.error .outOfBounds, s) := by
  rw [peekScalar, Exec.bind_error (peekBytes_past hpos h)]

theorem copyFrom_past {s : ByteStorage} {k n : Nat} (hpos : 0 < n) (h : s.rest.length < k + n)
    (d : Nat) : (copyFrom (s.read + k) n).run (s.advanceRead d) =
      (.error .outOfBounds, s.advanceRead d) := by
  have hshort :
      ({ s.advanceRead d with read := s.read + k } : ByteStorage).rest.length < 0 + n := by
    rw [length_rest] at h ⊢
    show s.bytes.length - (s.read + k) < 0 + n
    omega
  simp only [copyFrom, peekBytes_past hpos hshort]

theorem readScalar_past {s : ByteStorage} {w : Nat} (hpos : 0 < w) (h : s.rest.length < w) :
    (readScalar w).run s = (.error .outOfBounds, s) := by
  rw [readScalar, Exec.bind_error (peekScalar_past hpos (by omega))]

end ByteStorage

/-! ## Runs along the walk -/

section Tracks

variable {α β γ δ : Type}

/-- A run from `s` that does what the walk over the unread bytes does; `rel` relates what
it answers, and the message it leaves, to what the walk finds. -/
def Tracks (x : Exec Fault DecodeState α) (s : DecodeState) (ext : Extent β)
    (rel : α → Message → β → Prop) : Prop :=
  match ext with
  | .within value rest => ∃ a msg n, x.run s = (.ok a, ⟨msg, s.buffer.advanceRead n⟩) ∧
      n ≤ s.buffer.rest.length ∧ rest = s.buffer.rest.drop n ∧ rel a msg value
  | .refused => ∃ what msg n,
      x.run s = (.error (.exception what), ⟨msg, s.buffer.advanceRead n⟩) ∧
        n ≤ s.buffer.rest.length
  | .past => ∃ e s', x.run s = (.error e, s') ∧ e.isMemory = true

/-- A run that has come some way and goes on as another one. -/
theorem Tracks.of_run_eq {x y : Exec Fault DecodeState α} {s : DecodeState} {msg : Message}
    {n : Nat} {ext : Extent β} {rel : α → Message → β → Prop}
    (hy : Tracks y ⟨msg, s.buffer.advanceRead n⟩ ext rel) (hn : n ≤ s.buffer.rest.length)
    (hrun : x.run s = y.run ⟨msg, s.buffer.advanceRead n⟩) : Tracks x s ext rel := by
  cases ext with
  | within value rest =>
      obtain ⟨a, msg', n', hrun', hn', hrest', hrel⟩ := hy
      rw [ByteStorage.rest_advanceRead] at hn' hrest'
      rw [List.length_drop] at hn'
      refine ⟨a, msg', n + n', ?_, by omega, ?_, hrel⟩
      · rw [hrun, hrun', ByteStorage.advanceRead_advanceRead]
      · rw [hrest', List.drop_drop]
  | refused =>
      obtain ⟨what, msg', n', hrun', hn'⟩ := hy
      rw [ByteStorage.rest_advanceRead, List.length_drop] at hn'
      refine ⟨what, msg', n + n', ?_, by omega⟩
      rw [hrun, hrun', ByteStorage.advanceRead_advanceRead]
  | past =>
      obtain ⟨e, s', hrun', he⟩ := hy
      exact ⟨e, s', hrun.trans hrun', he⟩

theorem Tracks.bind {x : Exec Fault DecodeState α} {s : DecodeState} {ext : Extent β}
    {rel : α → Message → β → Prop} (hx : Tracks x s ext rel)
    {f : α → Exec Fault DecodeState γ} {g : β → Bytes → Extent δ}
    {rel' : γ → Message → δ → Prop}
    (hf : ∀ a msg n value, n ≤ s.buffer.rest.length → rel a msg value →
      Tracks (f a) ⟨msg, s.buffer.advanceRead n⟩ (g value (s.buffer.rest.drop n)) rel') :
    Tracks (x >>= f) s (ext.bind g) rel' := by
  cases ext with
  | within value rest =>
      obtain ⟨a, msg, n, hrun, hn, rfl, hrel⟩ := hx
      exact (hf a msg n value hn hrel).of_run_eq hn (Exec.bind_ok hrun)
  | refused =>
      obtain ⟨what, msg, n, hrun, hn⟩ := hx
      exact ⟨what, msg, n, Exec.bind_error hrun, hn⟩
  | past =>
      obtain ⟨e, s', hrun, he⟩ := hx
      exact ⟨e, s', Exec.bind_error hrun, he⟩

theorem Tracks.bind_pure {x : Exec Fault DecodeState α} {s : DecodeState} {ext : Extent β}
    {rel : α → Message → β → Prop} (hx : Tracks x s ext rel) {f : α → γ}
    {rel' : γ → Message → β → Prop}
    (hrel : ∀ a msg value, rel a msg value → rel' (f a) msg value) :
    Tracks (x >>= fun a => pure (f a)) s ext rel' := by
  cases ext with
  | within value rest =>
      obtain ⟨a, msg, n, hrun, hn, hrest, h⟩ := hx
      exact ⟨f a, msg, n, Exec.bind_ok hrun, hn, hrest, hrel a msg value h⟩
  | refused =>
      obtain ⟨what, msg, n, hrun, hn⟩ := hx
      exact ⟨what, msg, n, Exec.bind_error hrun, hn⟩
  | past =>
      obtain ⟨e, s', hrun, he⟩ := hx
      exact ⟨e, s', Exec.bind_error hrun, he⟩

theorem Tracks.pure {s : DecodeState} {a : α} {value : β} {rel : α → Message → β → Prop}
    (h : rel a s.msg value) :
    Tracks (Pure.pure a) s (.within value s.buffer.rest) rel :=
  ⟨a, s.msg, 0, rfl, Nat.zero_le _, rfl, h⟩

theorem Tracks.mono {x : Exec Fault DecodeState α} {s : DecodeState} {ext : Extent β}
    {rel rel' : α → Message → β → Prop} (hx : Tracks x s ext rel)
    (hrel : ∀ a msg value, rel a msg value → rel' a msg value) : Tracks x s ext rel' := by
  cases ext with
  | within value rest =>
      obtain ⟨a, msg, n, hrun, hn, hrest, h⟩ := hx
      exact ⟨a, msg, n, hrun, hn, hrest, hrel a msg value h⟩
  | refused => exact hx
  | past => exact hx

theorem Tracks.map {x : Exec Fault DecodeState α} {s : DecodeState} {ext : Extent β}
    {rel : α → Message → β → Prop} (hx : Tracks x s ext rel) {f : β → γ}
    {rel' : α → Message → γ → Prop} (hrel : ∀ a msg value, rel a msg value → rel' a msg (f value)) :
    Tracks x s (ext.map f) rel' := by
  cases ext with
  | within value rest =>
      obtain ⟨a, msg, n, hrun, hn, hrest, h⟩ := hx
      exact ⟨a, msg, n, hrun, hn, hrest, hrel a msg value h⟩
  | refused => exact hx
  | past => exact hx

theorem DecodeState.onBuffer_error {x : Exec Fault ByteStorage α} {s : DecodeState}
    {e : Fault} {b : ByteStorage} (h : x.run s.buffer = (.error e, b)) :
    (DecodeState.onBuffer x).run s = (.error e, ⟨s.msg, b⟩) :=
  Exec.zoom_error h

end Tracks

/-! ## Headers -/

section Header

variable {b : ByteStorage}

theorem peekFieldHeader_past (h : b.rest.length < MsgField.size) :
    peekFieldHeader.run b = (.error .outOfBounds, b) := by
  rw [MsgField.size] at h
  rw [peekFieldHeader]
  by_cases h1 : b.rest.length < 1
  · rw [Exec.bind_error (ByteStorage.peekScalar_past Nat.one_pos (by omega))]
  · rw [Exec.bind_ok (ByteStorage.peekScalar_ok (by omega))]
    by_cases h2 : b.rest.length < 2
    · rw [Exec.bind_error (ByteStorage.peekScalar_past Nat.one_pos (by omega))]
    · rw [Exec.bind_ok (ByteStorage.peekScalar_ok (by omega)),
        Exec.bind_error (ByteStorage.peekScalar_past (by omega) (by omega))]

theorem peekFieldHeader_ok (h : MsgField.size ≤ b.rest.length) :
    peekFieldHeader.run b =
      (.ok (.ofCode (UInt8.ofNat (leNat (b.rest.take 1))), leNat ((b.rest.drop 1).take 1),
        leNat ((b.rest.drop 2).take 4)), b) := by
  rw [MsgField.size] at h
  rw [peekFieldHeader, Exec.bind_ok (ByteStorage.peekScalar_ok (by omega)),
    Exec.bind_ok (ByteStorage.peekScalar_ok (by omega)),
    Exec.bind_ok (ByteStorage.peekScalar_ok (by omega)), Exec.pure_run, List.drop_zero]

/-- The constructor `Field(buffer)` checks every length it uses. -/
theorem readFieldHeader_run (hin : b.InRange) (h : MsgField.size ≤ b.rest.length) :
    (∃ header n, headerExtent b.rest = .within header (b.rest.drop n) ∧
        readFieldHeader.run b = (.ok header, b.advanceRead n) ∧
        MsgField.size ≤ n ∧ n + header.dataLength ≤ b.rest.length ∧
        header.type = .ofCode (UInt8.ofNat (leNat (b.rest.take 1))) ∧
        header.dataLength = leNat ((b.rest.drop 2).take 4)) ∨
      (headerExtent b.rest = .refused ∧ ∃ n ≤ b.rest.length,
        readFieldHeader.run b = (.error (.exception "Decode failed"), b.advanceRead n)) := by
  have h6 : 6 ≤ b.rest.length := h
  have hat : ∀ k, k ≤ b.rest.length →
      (b.advanceRead k).remainingReadLength = b.rest.length - k := by
    intro k hk
    rw [ByteStorage.remaining_eq (hin.advanceRead hk), ByteStorage.rest_advanceRead,
      List.length_drop]
  have hroom : MsgField.size ≤ b.remainingReadLength := ByteStorage.le_remaining h
  have h1 : (ByteStorage.readScalar 1).run b =
      (.ok (leNat (b.rest.take 1)), b.advanceRead 1) :=
    ByteStorage.readScalar_ok (by omega)
  have h2 : (ByteStorage.readScalar 1).run (b.advanceRead 1) =
      (.ok (leNat ((b.rest.drop 1).take 1)), b.advanceRead 2) :=
    ByteStorage.readScalar_behind (by omega)
  have h3 : (ByteStorage.readScalar 4).run (b.advanceRead 2) =
      (.ok (leNat ((b.rest.drop 2).take 4)), b.advanceRead 6) :=
    ByteStorage.readScalar_behind (by omega)
  rw [readFieldHeader, Exec.bind_ok (Exec.get_run b), if_pos hroom, Exec.bind_ok h1,
    Exec.bind_ok h2, Exec.bind_ok h3, Exec.bind_ok (Exec.get_run _), hat 6 h6, headerExtent]
  generalize leNat ((b.rest.drop 1).take 1) = idLen
  generalize leNat ((b.rest.drop 2).take 4) = dataLen
  rw [if_neg (by omega), MsgField.size]
  by_cases hid : b.rest.length - 6 ≥ idLen
  · have h4 : (ByteStorage.peekBytes 0 idLen).run (b.advanceRead 6) =
        (.ok ((b.rest.drop 6).take idLen), b.advanceRead 6) := by
      rw [ByteStorage.peekBytes_ok
        (by rw [ByteStorage.rest_advanceRead, List.length_drop]; omega),
        ByteStorage.rest_advanceRead, List.drop_zero]
    rw [if_pos hid, Exec.bind_ok h4, Exec.bind_ok (Exec.modify_run _ _),
      Exec.bind_ok (Exec.get_run _), ByteStorage.advanceRead_advanceRead, hat _ (by omega)]
    by_cases hdata : b.rest.length - (6 + idLen) ≥ dataLen
    · rw [if_pos hdata, if_neg (by omega)]
      exact .inl ⟨_, 6 + idLen, rfl, rfl, Nat.le_add_right _ _, by dsimp only; omega, rfl, rfl⟩
    · rw [if_neg hdata, if_pos (by omega)]
      exact .inr ⟨rfl, 6 + idLen, by omega, rfl⟩
  · rw [if_neg hid, if_pos (by omega)]
    exact .inr ⟨rfl, 6, h6, rfl⟩

end Header

/-! ## The field classes -/

section Value

variable {s : DecodeState} {header : FieldHeader} {n : Nat}

/-- What is asked of a reader of fields: the message it works for stays, and the field is
the walk's. -/
def Reads (s : DecodeState) (field : Field) (msg : Message) (entry : Entry) : Prop :=
  msg = s.msg ∧ field.entry = entry

theorem createScalarField_tracks
    (hheader : readFieldHeader.run s.buffer = (.ok header, s.buffer.advanceRead n))
    (hfit : n + header.dataLength ≤ s.buffer.rest.length) :
    Tracks (DecodeState.onBuffer createScalarField) s
      (if header.dataLength ≤ Field.rawSize then
        .within (header.identifier, none) ((s.buffer.rest.drop n).drop header.dataLength)
      else .past) (Reads s) := by
  have hdata : (ByteStorage.peekBytes 0 header.dataLength).run (s.buffer.advanceRead n) =
      (.ok ((s.buffer.rest.drop n).take header.dataLength), s.buffer.advanceRead n) := by
    rw [ByteStorage.peekBytes_ok (by rw [ByteStorage.rest_advanceRead, List.length_drop]; omega),
      ByteStorage.rest_advanceRead, List.drop_zero]
  by_cases hsize : header.dataLength ≤ Field.rawSize
  · rw [if_pos hsize]
    refine ⟨.scalar header.identifier header.type ((s.buffer.rest.drop n).take header.dataLength),
      s.msg, n + header.dataLength, DecodeState.onBuffer_ok ?_, hfit,
      List.drop_drop, rfl, rfl⟩
    rw [createScalarField, Exec.bind_ok hheader, Exec.bind_ok hdata, if_pos hsize,
      Exec.bind_ok (Exec.modify_run _ _), Exec.pure_run, ByteStorage.advanceRead_advanceRead]
  · rw [if_neg hsize]
    refine ⟨.overrun, ⟨s.msg, s.buffer.advanceRead n⟩, DecodeState.onBuffer_error ?_, rfl⟩
    rw [createScalarField, Exec.bind_ok hheader, Exec.bind_ok hdata, if_neg hsize]
    rfl

theorem createDataField_tracks
    (hheader : readFieldHeader.run s.buffer = (.ok header, s.buffer.advanceRead n))
    (hfit : n + header.dataLength ≤ s.buffer.rest.length) :
    Tracks (DecodeState.onBuffer (createDataField header.dataLength)) s
      (.within (header.identifier, some ((s.buffer.rest.drop n).take header.dataLength))
        ((s.buffer.rest.drop n).drop header.dataLength)) (Reads s) := by
  have hdata : (ByteStorage.peekBytes 0 header.dataLength).run (s.buffer.advanceRead n) =
      (.ok ((s.buffer.rest.drop n).take header.dataLength), s.buffer.advanceRead n) := by
    rw [ByteStorage.peekBytes_ok (by rw [ByteStorage.rest_advanceRead, List.length_drop]; omega),
      ByteStorage.rest_advanceRead, List.drop_zero]
  by_cases hsize : header.dataLength ≤ Field.smallDataMax
  · refine ⟨.smallData header.identifier header.type
        ((s.buffer.rest.drop n).take header.dataLength),
      s.msg, n + header.dataLength,
      DecodeState.onBuffer_ok ?_, hfit, List.drop_drop, rfl, rfl⟩
    rw [createDataField, Exec.bind_ok hheader, Exec.bind_ok hdata, if_pos hsize, if_pos hsize,
      Exec.bind_ok (Exec.modify_run _ _), Exec.pure_run, ByteStorage.advanceRead_advanceRead]
  · refine ⟨.largeData header.identifier header.type
        ((s.buffer.rest.drop n).take header.dataLength),
      s.msg, n + header.dataLength,
      DecodeState.onBuffer_ok ?_, hfit, List.drop_drop, rfl, rfl⟩
    rw [createDataField, Exec.bind_ok hheader, Exec.bind_ok hdata, if_neg hsize,
      Exec.bind_ok (Exec.modify_run _ _), Exec.pure_run, ByteStorage.advanceRead_advanceRead]

/-- Two reads of eight bytes each, neither of them checked. -/
theorem createDateTimeField_tracks
    (hheader : readFieldHeader.run s.buffer = (.ok header, s.buffer.advanceRead n)) :
    Tracks (DecodeState.onBuffer createDateTimeField) s
      (if MutableMessage.dateTimeSize ≤ (s.buffer.rest.drop n).length then
        .within (header.identifier, none)
          ((s.buffer.rest.drop n).drop MutableMessage.dateTimeSize)
      else .past) (Reads s) := by
  have hrest : ∀ k, (s.buffer.advanceRead k).rest.length = s.buffer.rest.length - k := by
    intro k
    rw [ByteStorage.rest_advanceRead, List.length_drop]
  rw [MutableMessage.dateTimeSize, List.length_drop]
  by_cases h8 : 8 ≤ s.buffer.rest.length - n
  · obtain ⟨seconds, hfirst⟩ : ∃ seconds, (ByteStorage.readScalar 8).run
        (s.buffer.advanceRead n) = (.ok seconds, s.buffer.advanceRead (n + 8)) :=
      ⟨_, ByteStorage.readScalar_behind (by omega)⟩
    by_cases h16 : 16 ≤ s.buffer.rest.length - n
    · rw [if_pos h16]
      obtain ⟨microseconds, hsecond⟩ : ∃ microseconds, (ByteStorage.readScalar 8).run
          (s.buffer.advanceRead (n + 8)) =
            (.ok microseconds, s.buffer.advanceRead (n + 16)) :=
        ⟨_, ByteStorage.readScalar_behind (by omega)⟩
      refine ⟨.dateTime header.identifier header.dataLength (UInt64.ofNat seconds).toInt64
        (UInt64.ofNat microseconds).toInt64, s.msg, n + 16, DecodeState.onBuffer_ok ?_, by omega,
        List.drop_drop, rfl, rfl⟩
      rw [createDateTimeField, Exec.bind_ok hheader, Exec.bind_ok hfirst, Exec.bind_ok hsecond,
        Exec.pure_run]
    · rw [if_neg h16]
      refine ⟨.outOfBounds, ⟨s.msg, s.buffer.advanceRead (n + 8)⟩,
        DecodeState.onBuffer_error ?_, rfl⟩
      rw [createDateTimeField, Exec.bind_ok hheader, Exec.bind_ok hfirst,
        Exec.bind_error (ByteStorage.readScalar_past (by omega) (by rw [hrest]; omega))]
  · rw [if_neg (by omega)]
    refine ⟨.outOfBounds, ⟨s.msg, s.buffer.advanceRead n⟩, DecodeState.onBuffer_error ?_, rfl⟩
    rw [createDateTimeField, Exec.bind_ok hheader,
      Exec.bind_error (ByteStorage.readScalar_past (by omega) (by rw [hrest]; omega))]

/-- What is asked of the reader of a body: whatever message it works for, it goes where
the walk goes. -/
def ReadsBody (body : Exec Fault DecodeState Bool) (ext : Bytes → Extent (List Entry)) : Prop :=
  ∀ s : DecodeState, s.buffer.InRange → Tracks body s (ext s.buffer.rest) fun _ _ _ => True

theorem createMessageField_tracks {body : Exec Fault DecodeState Bool}
    {ext : Bytes → Extent (List Entry)} (hbody : ReadsBody body ext) (hin : s.buffer.InRange)
    (hheader : readFieldHeader.run s.buffer = (.ok header, s.buffer.advanceRead n))
    (hn : n ≤ s.buffer.rest.length) :
    Tracks (createMessageField body) s
      ((ext (s.buffer.rest.drop n)).map fun _ => (header.identifier, none)) (Reads s) := by
  have hfresh := hbody ⟨Message.new, s.buffer.advanceRead n⟩ (hin.advanceRead hn)
  rw [ByteStorage.rest_advanceRead] at hfresh
  have hrun : ∀ {a : Except Fault Message} {b : ByteStorage},
      (DecodeState.onFresh body).run ⟨s.msg, s.buffer.advanceRead n⟩ = (a, ⟨s.msg, b⟩) →
      (createMessageField body).run s =
        (a.map (Field.message header.identifier), ⟨s.msg, b⟩) := by
    intro a b h
    rw [createMessageField, Exec.bind_ok (DecodeState.onBuffer_ok hheader)]
    cases a with
    | ok msg =>
        rw [Exec.bind_ok h]
        rfl
    | error e =>
        rw [Exec.bind_error h]
        rfl
  cases hext : ext (s.buffer.rest.drop n) with
  | within entries rest =>
      rw [hext] at hfresh
      obtain ⟨a, msg, k, hbodyrun, hk, hrest, -⟩ := hfresh
      rw [ByteStorage.rest_advanceRead] at hk hrest
      rw [List.length_drop] at hk
      refine ⟨.message header.identifier msg, s.msg, n + k,
        (hrun (a := .ok msg) (b := s.buffer.advanceRead (n + k)) ?_), by omega, ?_, rfl, rfl⟩
      · simp only [DecodeState.onFresh, hbodyrun, ByteStorage.advanceRead_advanceRead]
      · rw [hrest, List.drop_drop]
  | refused =>
      rw [hext] at hfresh
      obtain ⟨what, msg, k, hbodyrun, hk⟩ := hfresh
      rw [ByteStorage.rest_advanceRead, List.length_drop] at hk
      refine ⟨what, s.msg, n + k, (hrun (a := .error (.exception what))
        (b := s.buffer.advanceRead (n + k)) ?_), by omega⟩
      simp only [DecodeState.onFresh, hbodyrun, ByteStorage.advanceRead_advanceRead]
  | past =>
      rw [hext] at hfresh
      obtain ⟨e, s', hbodyrun, he⟩ := hfresh
      refine ⟨e, ⟨s.msg, s'.buffer⟩, hrun (a := .error e) (b := s'.buffer) ?_, he⟩
      simp only [DecodeState.onFresh, hbodyrun]

theorem decodeField_tracks {body : Exec Fault DecodeState Bool}
    {ext : Bytes → Extent (List Entry)} (hbody : ReadsBody body ext) (hin : s.buffer.InRange) :
    Tracks (decodeField body) s (fieldExtent ext s.buffer.rest) (Reads s) := by
  by_cases hsize : MsgField.size ≤ s.buffer.rest.length
  · have hpeek := peekFieldHeader_ok hsize
    obtain ⟨header, n, hext, hheader, -, hfit, htype, hlen⟩ | ⟨hext, n, hn, hheader⟩ :=
      readFieldHeader_run hin hsize
    · have hscalar := createScalarField_tracks hheader hfit
      have hdata := createDataField_tracks hheader hfit
      have htime := createDateTimeField_tracks hheader
      have hmessage := createMessageField_tracks hbody hin hheader (by omega)
      rw [← htype, ← hlen] at hpeek
      rw [fieldExtent, hext, Extent.bind, valueExtent]
      generalize header.type = type at hpeek
      cases type with
      | string => exact
          hdata.of_run_eq (n := 0) (Nat.zero_le _) (Exec.bind_ok (DecodeState.onBuffer_ok hpeek))
      | data => exact
          hdata.of_run_eq (n := 0) (Nat.zero_le _) (Exec.bind_ok (DecodeState.onBuffer_ok hpeek))
      | dateTime => exact
          htime.of_run_eq (n := 0) (Nat.zero_le _) (Exec.bind_ok (DecodeState.onBuffer_ok hpeek))
      | message => exact
          hmessage.of_run_eq (n := 0) (Nat.zero_le _) (Exec.bind_ok (DecodeState.onBuffer_ok hpeek))
      | _ => exact
          hscalar.of_run_eq (n := 0) (Nat.zero_le _) (Exec.bind_ok (DecodeState.onBuffer_ok hpeek))
    · -- every class begins with the header, so none gets further
      rw [fieldExtent, hext, Extent.bind]
      refine ⟨"Decode failed", s.msg, n, ?_, hn⟩
      rw [decodeField, Exec.bind_ok (DecodeState.onBuffer_ok hpeek)]
      dsimp only
      generalize StorageType.ofCode _ = type
      cases type with
      | message => exact Exec.bind_error (DecodeState.onBuffer_error hheader)
      | _ => exact DecodeState.onBuffer_error (Exec.bind_error hheader)
  · have hpast : headerExtent s.buffer.rest = .past := by
      rw [headerExtent, if_pos (by omega)]
    rw [fieldExtent, hpast, Extent.bind]
    refine ⟨.outOfBounds, s, ?_, rfl⟩
    rw [decodeField, Exec.bind_error (DecodeState.onBuffer_error
      (peekFieldHeader_past (by omega)))]

end Value

/-! ## Bodies -/

section Body

variable {fields : Nat → Exec Fault DecodeState Unit} {s : DecodeState}

theorem decodeBody_absent (hin : s.buffer.InRange) (hsize : s.buffer.rest.length ≤ MsgHeader.size) :
    (decodeBody fields).run s = (.ok false, s) := by
  rw [decodeBody, Exec.bind_ok (Exec.get_run s), ByteStorage.remaining_eq hin,
    if_neg (Nat.not_lt.mpr hsize), Exec.pure_run]

theorem decodeBody_corrupt (hin : s.buffer.InRange) (hsize : MsgHeader.size < s.buffer.rest.length)
    (hflag : leNat (s.buffer.rest.take 1) ≠ bodyFlag) :
    (decodeBody fields).run s =
      (.error (.exception "Received corrupt message - incorrect body marker"),
        ⟨s.msg, s.buffer.advanceRead 1⟩) := by
  have hchk := DecodeState.onBuffer_ok (s := s)
    (ByteStorage.readScalar_ok (w := 1) (by rw [MsgHeader.size] at hsize; omega))
  rw [decodeBody, Exec.bind_ok (Exec.get_run s), ByteStorage.remaining_eq hin, if_pos hsize,
    Exec.bind_ok hchk, if_pos hflag, Exec.throw_run]

theorem decodeBody_counted (hin : s.buffer.InRange) (hsize : MsgHeader.size < s.buffer.rest.length)
    (hflag : ¬ leNat (s.buffer.rest.take 1) ≠ bodyFlag) :
    (decodeBody fields).run s =
      (do fields (leNat ((s.buffer.rest.drop 1).take 4))
          pure (decide (0 < leNat ((s.buffer.rest.drop 1).take 4)))).run
        ⟨s.msg, s.buffer.advanceRead MsgHeader.size⟩ := by
  have hchk := DecodeState.onBuffer_ok (s := s)
    (ByteStorage.readScalar_ok (w := 1) (by rw [MsgHeader.size] at hsize; omega))
  have hcount := DecodeState.onBuffer_ok (s := ⟨s.msg, s.buffer.advanceRead 1⟩)
    (ByteStorage.readScalar_behind (n := 1) (w := 4) hsize.le)
  rw [decodeBody, Exec.bind_ok (Exec.get_run s), ByteStorage.remaining_eq hin, if_pos hsize,
    Exec.bind_ok hchk, if_neg hflag, Exec.bind_ok hcount]
  rfl

end Body

/-- What is asked of the field loop: the fields pushed into the message are the walk's. -/
def Collects (s : DecodeState) (count : Nat) (msg : Message) (entries : List Entry) : Prop :=
  entries.length = count ∧ ∃ fields : List Field,
    msg = fields.foldl Message.pushDecoded s.msg ∧ fields.map Field.entry = entries

theorem decodeBody_tracks {fields : Nat → Exec Fault DecodeState Unit}
    {ext : Nat → Bytes → Extent (List Entry)}
    (hfields : ∀ count (s : DecodeState), s.buffer.InRange →
      Tracks (fields count) s (ext count s.buffer.rest) fun _ => Collects s count)
    {s : DecodeState} (hin : s.buffer.InRange) :
    Tracks (decodeBody fields) s (bodyExtent ext s.buffer.rest) fun a msg entries =>
      (a = true ↔ entries ≠ []) ∧ ∃ count, Collects s count msg entries := by
  rw [bodyExtent]
  by_cases hsize : s.buffer.rest.length ≤ MsgHeader.size
  · rw [if_pos hsize]
    exact ⟨false, s.msg, 0, decodeBody_absent hin hsize, Nat.zero_le _, rfl, by simp, 0, rfl, [],
      rfl, rfl⟩
  · rw [if_neg hsize]
    have hbehind := Nat.lt_of_not_le hsize
    by_cases hflag : leNat (s.buffer.rest.take 1) ≠ bodyFlag
    · rw [if_pos hflag]
      exact ⟨_, s.msg, 1, decodeBody_corrupt hin hbehind hflag, by omega⟩
    · rw [if_neg hflag]
      have hrun : (decodeBody fields).run s = _ := decodeBody_counted hin hbehind hflag
      generalize leNat ((s.buffer.rest.drop 1).take 4) = count at hrun
      have hloop := hfields count ⟨s.msg, s.buffer.advanceRead MsgHeader.size⟩
        (hin.advanceRead hbehind.le)
      rw [ByteStorage.rest_advanceRead] at hloop
      refine Tracks.of_run_eq (hloop.bind_pure fun _ msg entries hcollects => ?_) hbehind.le hrun
      refine ⟨?_, count, hcollects⟩
      rw [decide_eq_true_iff, ← hcollects.1, List.length_pos_iff]

theorem decodeFields_tracks (fuel : Nat) : ∀ (count : Nat) (s : DecodeState), s.buffer.InRange →
    Tracks (decodeFields fuel count) s (fieldsExtent fuel count s.buffer.rest)
      fun _ => Collects s count := by
  induction fuel with
  | zero =>
      intro count s hin
      cases count with
      | zero => exact .pure ⟨rfl, [], rfl, rfl⟩
      | succ count => exact ⟨.outOfBounds, s, rfl, rfl⟩
  | succ fuel ih =>
      intro count s hin
      cases count with
      | zero => exact .pure ⟨rfl, [], rfl, rfl⟩
      | succ count =>
          have hbody : ReadsBody (decodeBody (decodeFields fuel))
              (bodyExtent (fieldsExtent fuel)) :=
            fun s hin => (decodeBody_tracks ih hin).mono fun _ _ _ _ => trivial
          rw [decodeFields, fieldsExtent]
          refine (decodeField_tracks hbody hin).bind ?_
          intro field msg n entry hn h
          obtain ⟨rfl, rfl⟩ := h
          have hrest := ih count ⟨s.msg.pushDecoded field, s.buffer.advanceRead n⟩
            (hin.advanceRead hn)
          rw [ByteStorage.rest_advanceRead] at hrest
          refine Tracks.of_run_eq (n := 0) (hrest.map ?_) (Nat.zero_le _)
            (Exec.bind_ok (Exec.modify_run _ _))
          intro _ msg entries h
          obtain ⟨hlen, fields, rfl, hentries⟩ := h
          refine ⟨?_, field :: fields, rfl, ?_⟩
          · rw [List.length_cons, hlen]
          · rw [List.map_cons, hentries]

/-! ## Messages -/

/-- A message with its addressing. The subject is stepped over before anything says that
it is there. -/
def messageExtent (r : Bytes) : Extent (List Entry) :=
  match (frameStatus r).1 with
  | .complete =>
      if MsgAddressing.size + subjectLengthAt r ≤ r.length then
        bodyExtent (fieldsExtent r.length) (r.drop (MsgAddressing.size + subjectLengthAt r))
      else .past
  | .corrupt => .refused
  | .incomplete => .within [] r

/-- The message `decode` leaves holds the walk's fields and no other. -/
def Decodes (s : DecodeState) (answer : Bool) (msg : Message) (entries : List Entry) : Prop :=
  (answer = true ↔ entries ≠ []) ∧ ∃ (base : Message) (fields : List Field),
    base.payload = s.msg.payload ∧ base.keys = s.msg.keys ∧
      msg = fields.foldl Message.pushDecoded base ∧ fields.map Field.entry = entries

section Decode

variable {s : DecodeState} {n : Nat}

theorem decode_corrupt (hin : s.buffer.InRange) (h : frameStatus s.buffer.rest = (.corrupt, n)) :
    Message.decode.run s =
      (.error (.exception "Received corrupt message - incorrect addressing marker"), s) := by
  have haddr := DecodeState.onBuffer_ok (addressingDetails_other hin h (by decide))
  rw [Message.decode, Exec.bind_ok (Exec.get_run _), Exec.bind_ok haddr]
  rfl

/-- The subject on the wire, as many bytes as declared. -/
def wireSubject (r : Bytes) : Bytes := (r.drop MsgAddressing.size).take (subjectLengthAt r)

theorem copyFrom_subject {b : ByteStorage}
    (hfits : MsgAddressing.size + subjectLengthAt b.rest ≤ b.rest.length) :
    (ByteStorage.copyFrom (b.read + MsgAddressing.size) (subjectLengthAt b.rest)).run
        (b.advanceRead (MsgAddressing.size + subjectLengthAt b.rest)) =
      (.ok (wireSubject b.rest), b.advanceRead (MsgAddressing.size + subjectLengthAt b.rest)) := by
  have hcopy := ByteStorage.copyFrom_append (s := b) (k := MsgAddressing.size)
    (List.take_append_drop (subjectLengthAt b.rest) _).symm
    (MsgAddressing.size + subjectLengthAt b.rest)
  rw [List.length_take_of_le (by rw [List.length_drop]; omega)] at hcopy
  exact hcopy

theorem copyFrom_overlong {b : ByteStorage} (hsize : MsgAddressing.size ≤ b.rest.length)
    (hlong : ¬ MsgAddressing.size + subjectLengthAt b.rest ≤ b.rest.length) :
    (ByteStorage.copyFrom (b.read + MsgAddressing.size) (subjectLengthAt b.rest)).run
        (b.advanceRead (MsgAddressing.size + subjectLengthAt b.rest)) =
      (.error .outOfBounds, b.advanceRead (MsgAddressing.size + subjectLengthAt b.rest)) :=
  ByteStorage.copyFrom_past (by omega) (by omega) _

/-- A complete message whose subject is there, up to its body. -/
theorem decode_addressed (hin : s.buffer.InRange)
    (h : frameStatus s.buffer.rest = (.complete, n))
    (hfits : MsgAddressing.size + subjectLengthAt s.buffer.rest ≤ s.buffer.rest.length) :
    Message.decode.run s =
      (decodeBody (decodeFields s.buffer.rest.length)).run
        ⟨{ s.msg with
            flags := flagsAt s.buffer.rest
            subject := Message.copyFront s.msg.subject (wireSubject s.buffer.rest) },
          s.buffer.advanceRead (MsgAddressing.size + subjectLengthAt s.buffer.rest)⟩ := by
  have haddr := DecodeState.onBuffer_ok (addressingDetails_complete hin h)
  rw [Message.decode, Exec.bind_ok (Exec.get_run _), Exec.bind_ok haddr]
  dsimp only
  rw [Exec.bind_ok (Exec.modify_run _ _),
    Exec.bind_ok (DecodeState.onBuffer_ok (copyFrom_subject hfits)),
    Exec.bind_ok (Exec.modify_run _ _)]

/-- One whose subject is longer than what is there. -/
theorem decode_overlong (hin : s.buffer.InRange)
    (h : frameStatus s.buffer.rest = (.complete, n))
    (hlong : ¬ MsgAddressing.size + subjectLengthAt s.buffer.rest ≤ s.buffer.rest.length) :
    Message.decode.run s =
      (.error .outOfBounds, ⟨{ s.msg with flags := flagsAt s.buffer.rest },
        s.buffer.advanceRead (MsgAddressing.size + subjectLengthAt s.buffer.rest)⟩) := by
  have haddr := DecodeState.onBuffer_ok (addressingDetails_complete hin h)
  have hcopy := copyFrom_overlong (size_le_of_complete h).1 hlong
  rw [Message.decode, Exec.bind_ok (Exec.get_run _), Exec.bind_ok haddr]
  dsimp only
  rw [Exec.bind_ok (Exec.modify_run _ _), Exec.bind_error (DecodeState.onBuffer_error hcopy)]

theorem decode_tracks (hin : s.buffer.InRange) :
    Tracks Message.decode s (messageExtent s.buffer.rest) (Decodes s) := by
  obtain ⟨status, n, hstatus⟩ : ∃ status n, frameStatus s.buffer.rest = (status, n) :=
    ⟨_, _, rfl⟩
  rw [messageExtent, hstatus]
  cases status with
  | complete =>
      dsimp only
      by_cases hsubject : MsgAddressing.size + subjectLengthAt s.buffer.rest ≤
          s.buffer.rest.length
      · rw [if_pos hsubject]
        have hbody := decodeBody_tracks (decodeFields_tracks s.buffer.rest.length)
          (s := ⟨{ s.msg with
              flags := flagsAt s.buffer.rest
              subject := Message.copyFront s.msg.subject (wireSubject s.buffer.rest) },
            s.buffer.advanceRead (MsgAddressing.size + subjectLengthAt s.buffer.rest)⟩)
          (hin.advanceRead hsubject)
        rw [ByteStorage.rest_advanceRead] at hbody
        refine Tracks.of_run_eq (hbody.mono ?_) hsubject (decode_addressed hin hstatus hsubject)
        intro answer msg entries h
        obtain ⟨hanswer, count, -, fields, hmsg, hentries⟩ := h
        exact ⟨hanswer, { s.msg with
          flags := flagsAt s.buffer.rest
          subject := Message.copyFront s.msg.subject (wireSubject s.buffer.rest) },
          fields, rfl, rfl, hmsg, hentries⟩
      · rw [if_neg hsubject]
        exact ⟨.outOfBounds, _, decode_overlong hin hstatus hsubject, rfl⟩
  | corrupt => exact ⟨_, s.msg, 0, decode_corrupt hin hstatus, Nat.zero_le _⟩
  | incomplete =>
      exact ⟨false, s.msg, 0, decode_incomplete hin hstatus s.msg, Nat.zero_le _, rfl, by simp,
        s.msg, [], rfl, rfl, rfl, rfl⟩

end Decode

/-- With its cursor past the end, a buffer holds no message. -/
theorem addressingDetails_outside {b : ByteStorage} (hout : ¬ b.InRange) :
    addressingDetails.run b = (.error .outOfBounds, b) ∨
      addressingDetails.run b = (.ok (.incomplete, none), b) := by
  have hrest : b.rest.length < 0 + 1 := by
    rw [ByteStorage.InRange] at hout
    rw [ByteStorage.length_rest]
    omega
  have hpeek := ByteStorage.peekScalar_past (w := 1) Nat.one_pos hrest
  rw [addressingDetails]
  by_cases hroom : b.remainingReadLength ≥ MsgAddressing.size
  · refine .inl (Exec.bind_error ?_)
    rw [haveCompleteMessage, Exec.bind_ok (Exec.get_run b), if_pos hroom, Exec.bind_error hpeek]
  · have hnone : haveCompleteMessage.run b = (.ok (.incomplete, 0), b) := by
      rw [haveCompleteMessage, Exec.bind_ok (Exec.get_run b), if_neg hroom, Exec.pure_run]
    exact .inr (Exec.bind_ok hnone)

theorem decode_outside {b : ByteStorage} (hout : ¬ b.InRange) (target : Message) :
    (Message.decode.run ⟨target, b⟩).1 = .error .outOfBounds ∨
      (Message.decode.run ⟨target, b⟩).1 = .ok false := by
  rw [Message.decode, Exec.bind_ok (Exec.get_run _)]
  rcases addressingDetails_outside hout with haddr | haddr
  · rw [Exec.bind_error (DecodeState.onBuffer_error haddr)]
    exact .inl rfl
  · rw [Exec.bind_ok (DecodeState.onBuffer_ok haddr)]
    exact .inr rfl

/-- `decode` reads inside the buffer and leaves the cursor there, whether it answers or
throws. The cursor only moves forward, so it was there all along. -/
def Message.DecodesInside (target : Message) (b : ByteStorage) : Prop :=
  (∀ e, (Message.decode.run ⟨target, b⟩).1 = .error e → e.isMemory = false) ∧
    (Message.decode.run ⟨target, b⟩).2.buffer.InRange

theorem Message.decodesInside_of_stays {b : ByteStorage} (hin : b.InRange) (target : Message) :
    Message.DecodesInside target b ↔ (messageExtent b.rest).Stays fun _ => True := by
  have htracks := decode_tracks (s := ⟨target, b⟩) hin
  rw [Message.DecodesInside]
  cases hext : messageExtent b.rest with
  | within entries rest =>
      rw [hext] at htracks
      obtain ⟨a, msg, n, hrun, hn, -⟩ := htracks
      rw [hrun]
      refine ⟨fun _ => trivial, fun _ => ⟨fun e he => ?_, hin.advanceRead hn⟩⟩
      cases he
  | refused =>
      rw [hext] at htracks
      obtain ⟨what, msg, n, hrun, hn⟩ := htracks
      rw [hrun]
      refine ⟨fun _ => trivial, fun _ => ⟨fun e he => ?_, hin.advanceRead hn⟩⟩
      cases he
      rfl
  | past =>
      rw [hext] at htracks
      obtain ⟨e, s', hrun, he⟩ := htracks
      rw [hrun]
      refine ⟨fun h => ?_, fun h => absurd h id⟩
      rw [h.1 e rfl] at he
      cases he

end Fastpath
