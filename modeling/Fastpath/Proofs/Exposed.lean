import Fastpath.Model.Exposed
import Fastpath.Proofs.Bounds
import Fastpath.Spec.Reach

/-!
# Reading in a view, with memory behind it

Two kinds of fact about the readers. What a reader answers is a fact about the
memory in front of it, `unread`, and a header is accepted by what the view has
left, which is another thing: inside the view the one begins with the other, and
past its end nothing is refused any more.

What a reader leaves true it leaves true whether it answers or not, as long as
it survives reading on and copying. `Lasting` is that condition, and one pass
over the readers serves everything that meets it: the cursor never goes back,
and a copy that has been made stays on the list.
-/

namespace Fastpath

open Fastpath.Lib

/-- A string ends with its terminator, whatever comes behind it. -/
theorem CString.readFrom_append {l : Bytes} {s : CString} (h : CString.readFrom l = .ok s)
    (more : Bytes) : CString.readFrom (l ++ more) = .ok s := by
  rw [CString.readFrom] at h ⊢
  by_cases hnul : (0 : UInt8) ∈ l
  · rw [if_pos hnul] at h
    rw [if_pos (List.mem_append_left _ hnul), ← h]
    congr 1
    simp only [CString.ofArray, CString.mk.injEq]
    rw [List.takeWhile_append, if_neg]
    intro hall
    have hlen := List.takeWhile_eq_self_iff.mp
      ((List.takeWhile_prefix _).eq_of_length hall) 0 hnul
    simp at hlen
  · rw [if_neg hnul] at h
    cases h

namespace Exposed

/-! ## Memory -/

section Memory

variable {s : Exposed}

/-- The view holds as many bytes as its cursor has gone over, and the memory goes on. -/
theorem unread_eq (hin : s.view.InRange) : s.unread = s.view.rest ++ s.behind := by
  rw [unread, memory, ByteStorage.rest, List.drop_append_of_le_length hin]

theorem length_unread (s : Exposed) :
    s.unread.length = s.view.bytes.length + s.behind.length - s.view.read := by
  rw [unread, memory, List.length_drop, List.length_append]

theorem rest_le_unread (hin : s.view.InRange) : s.view.rest.length ≤ s.unread.length := by
  rw [unread_eq hin, List.length_append]
  omega

@[simp] theorem unread_advanceRead (s : Exposed) (n : Nat) :
    (s.advanceRead n).unread = s.unread.drop n :=
  (List.drop_drop).symm

@[simp] theorem advanceRead_advanceRead (s : Exposed) (a b : Nat) :
    (s.advanceRead a).advanceRead b = s.advanceRead (a + b) :=
  congrArg (fun view => { s with view := view }) (ByteStorage.advanceRead_advanceRead s.view a b)

theorem peekBytes_ok {offset n : Nat} (h : offset + n ≤ s.unread.length) :
    (peekBytes offset n).run s = (.ok ((s.unread.drop offset).take n), s) := by
  rw [unread, List.length_drop] at h
  simp only [peekBytes]
  rw [if_pos (by omega)]

theorem peekScalar_ok {offset w : Nat} (h : offset + w ≤ s.unread.length) :
    (peekScalar offset w).run s = (.ok (leNat ((s.unread.drop offset).take w)), s) := by
  rw [peekScalar, Exec.bind_ok (peekBytes_ok h), Exec.pure_run]

theorem readScalar_ok {w : Nat} (h : w ≤ s.unread.length) :
    (readScalar w).run s = (.ok (leNat (s.unread.take w)), s.advanceRead w) := by
  rw [readScalar, Exec.bind_ok (peekScalar_ok (by omega)), List.drop_zero,
    Exec.bind_ok (Exec.modify_run _ _), Exec.pure_run]

theorem readScalar_behind {n w : Nat} (h : n + w ≤ s.unread.length) :
    (readScalar w).run (s.advanceRead n) =
      (.ok (leNat ((s.unread.drop n).take w)), s.advanceRead (n + w)) := by
  rw [readScalar_ok (by rw [unread_advanceRead, List.length_drop]; omega), unread_advanceRead,
    advanceRead_advanceRead]

theorem of_peekScalar_ok {offset w v : Nat} {s' : Exposed}
    (h : (peekScalar offset w).run s = (.ok v, s')) : s' = s := by
  obtain ⟨raw, s₁, hraw, hpure⟩ := Exec.of_bind_ok h
  cases hpure
  rw [peekBytes] at hraw
  dsimp only at hraw
  split at hraw
  · cases hraw
    rfl
  · cases hraw

theorem of_readScalar_ok {w v : Nat} {s' : Exposed} (h : (readScalar w).run s = (.ok v, s')) :
    s' = s.advanceRead w := by
  obtain ⟨value, s₁, hpeek, h⟩ := Exec.of_bind_ok h
  cases h
  rw [of_peekScalar_ok hpeek]

/-- A copy that has been made. -/
def noted (array : FixedArray) (length : Nat) (s : Exposed) : Exposed :=
  { s with copies := s.copies ++ [⟨array, length⟩] }

@[simp] theorem unread_noted (array : FixedArray) (length : Nat) (s : Exposed) :
    (s.noted array length).unread = s.unread := rfl

theorem onView_get (s : Exposed) :
    (onView Exec.get : Exec Fault Exposed ByteStorage).run s = (.ok s.view, s) := rfl

end Memory

/-! ## The readers of fields -/

section Fields

variable {s s₁ : Exposed} {header : FieldHeader}

theorem peekFieldHeader_ok (h : MsgField.size ≤ s.unread.length) :
    peekFieldHeader.run s =
      (.ok (typeAt s.unread, identifierLengthAt s.unread, dataLengthAt s.unread), s) := by
  rw [MsgField.size] at h
  rw [peekFieldHeader, Exec.bind_ok (peekScalar_ok (by omega)),
    Exec.bind_ok (peekScalar_ok (by omega)), Exec.bind_ok (peekScalar_ok (by omega)),
    Exec.pure_run, List.drop_zero, typeAt, identifierLengthAt, dataLengthAt]

/-- What the header is read as where it stands in memory. -/
def headerOf (r : Bytes) : FieldHeader :=
  ⟨typeAt r, .ofArray ((r.drop MsgField.size).take (identifierLengthAt r)), dataLengthAt r⟩

/-- The state behind it. -/
def behindHeader (s : Exposed) : Exposed :=
  (s.advanceRead (headerLength s.unread)).noted .identifier (identifierLengthAt s.unread + 1)

theorem unread_behindHeader (s : Exposed) :
    s.behindHeader.unread = s.unread.drop (headerLength s.unread) := by
  rw [behindHeader, unread_noted, unread_advanceRead]

/-- The header is there: what is left is to check the two lengths in it. -/
theorem readFieldHeader_begun (h : MsgField.size ≤ s.view.remainingReadLength)
    (hmem : MsgField.size ≤ s.unread.length) :
    readFieldHeader.run s =
      (if (s.view.advanceRead MsgField.size).remainingReadLength ≥
          identifierLengthAt s.unread then do
        let identifier ← peekBytes 0 (identifierLengthAt s.unread)
        copyInto .identifier (identifierLengthAt s.unread + 1)
        Exec.modify (advanceRead (identifierLengthAt s.unread))
        let buffer ← onView Exec.get
        if buffer.remainingReadLength ≥ dataLengthAt s.unread then
          pure ⟨typeAt s.unread, .ofArray identifier, dataLengthAt s.unread⟩
        else Exec.throw (.exception "Decode failed")
      else Exec.throw (.exception "Decode failed") : Exec Fault Exposed FieldHeader).run
        (s.advanceRead MsgField.size) := by
  rw [MsgField.size] at hmem
  have h1 : (readScalar 1).run s = (.ok (leNat (s.unread.take 1)), s.advanceRead 1) :=
    readScalar_ok (by omega)
  have h2 : (readScalar 1).run (s.advanceRead 1) =
      (.ok (identifierLengthAt s.unread), s.advanceRead 2) :=
    readScalar_behind (by omega)
  have h3 : (readScalar 4).run (s.advanceRead 2) =
      (.ok (dataLengthAt s.unread), s.advanceRead MsgField.size) :=
    readScalar_behind (by omega)
  rw [readFieldHeader, Exec.bind_ok (onView_get s), if_pos h, Exec.bind_ok h1, Exec.bind_ok h2,
    Exec.bind_ok h3, Exec.bind_ok (onView_get _)]
  rfl

/-- A header goes by what the view has left, whatever that is, and by nothing else. -/
theorem readFieldHeader_ok (h : MsgField.size ≤ s.view.remainingReadLength)
    (hid : identifierLengthAt s.unread ≤ (s.view.advanceRead MsgField.size).remainingReadLength)
    (hdata : dataLengthAt s.unread ≤
      (s.view.advanceRead (headerLength s.unread)).remainingReadLength)
    (hmem : headerLength s.unread ≤ s.unread.length) :
    readFieldHeader.run s = (.ok (headerOf s.unread), s.behindHeader) := by
  rw [headerLength] at hmem
  have hpeek : (peekBytes 0 (identifierLengthAt s.unread)).run (s.advanceRead MsgField.size) =
      (.ok ((s.unread.drop MsgField.size).take (identifierLengthAt s.unread)),
        s.advanceRead MsgField.size) := by
    rw [peekBytes_ok (by rw [unread_advanceRead, List.length_drop]; omega), unread_advanceRead,
      List.drop_zero]
  have hstate : ((s.advanceRead MsgField.size).noted .identifier
      (identifierLengthAt s.unread + 1)).advanceRead (identifierLengthAt s.unread) =
        s.behindHeader := by
    rw [behindHeader, headerLength, ← advanceRead_advanceRead]
    rfl
  have hroom : s.behindHeader.view.remainingReadLength ≥ dataLengthAt s.unread := hdata
  rw [readFieldHeader_begun h (by omega), if_pos hid, Exec.bind_ok hpeek, copyInto,
    Exec.bind_ok (Exec.modify_run _ _), Exec.bind_ok (Exec.modify_run _ _)]
  change (onView Exec.get >>= _).run (((s.advanceRead MsgField.size).noted .identifier
    (identifierLengthAt s.unread + 1)).advanceRead (identifierLengthAt s.unread)) = _
  rw [hstate, Exec.bind_ok (onView_get _), if_pos hroom, Exec.pure_run, headerOf]

theorem createScalarField_ok (hheader : readFieldHeader.run s = (.ok header, s₁))
    (hdata : header.dataLength ≤ s₁.unread.length) :
    createScalarField.run s =
      (.ok (.scalar header.identifier header.type (s₁.unread.take header.dataLength)),
        (s₁.noted .raw header.dataLength).advanceRead header.dataLength) := by
  rw [createScalarField, Exec.bind_ok hheader, Exec.bind_ok (peekBytes_ok (by omega)),
    List.drop_zero, copyInto, Exec.bind_ok (Exec.modify_run _ _),
    Exec.bind_ok (Exec.modify_run _ _), Exec.pure_run]
  rfl

theorem createDataField_ok (hheader : readFieldHeader.run s = (.ok header, s₁))
    (hdata : header.dataLength ≤ s₁.unread.length) :
    ∃ field, (createDataField header.dataLength).run s =
      (.ok field, (if header.dataLength ≤ Field.smallDataMax then
        s₁.noted .storage header.dataLength else s₁).advanceRead header.dataLength) := by
  rw [createDataField, Exec.bind_ok hheader, Exec.bind_ok (peekBytes_ok (by omega))]
  by_cases hsmall : header.dataLength ≤ Field.smallDataMax
  · rw [if_pos hsmall, if_pos hsmall]
    exact ⟨_, rfl⟩
  · rw [if_neg hsmall, if_neg hsmall]
    exact ⟨_, rfl⟩

theorem createDateTimeField_ok (hheader : readFieldHeader.run s = (.ok header, s₁))
    (htime : MutableMessage.dateTimeSize ≤ s₁.unread.length) :
    ∃ field, createDateTimeField.run s =
      (.ok field, s₁.advanceRead MutableMessage.dateTimeSize) := by
  rw [MutableMessage.dateTimeSize] at htime
  rw [createDateTimeField, Exec.bind_ok hheader, Exec.bind_ok (readScalar_ok (by omega)),
    Exec.bind_ok (readScalar_behind (by omega))]
  exact ⟨_, rfl⟩

/-- The sixteen bytes are stepped over wherever they are. -/
theorem of_createDateTimeField_ok (hheader : readFieldHeader.run s = (.ok header, s₁))
    {field : Field} {s' : Exposed} (h : createDateTimeField.run s = (.ok field, s')) :
    s' = s₁.advanceRead MutableMessage.dateTimeSize := by
  rw [createDateTimeField, Exec.bind_ok hheader] at h
  obtain ⟨seconds, s₂, hfirst, h⟩ := Exec.of_bind_ok h
  obtain ⟨microseconds, s₃, hsecond, h⟩ := Exec.of_bind_ok h
  cases h
  rw [of_readScalar_ok hsecond, of_readScalar_ok hfirst, advanceRead_advanceRead]
  rfl

end Fields

/-! ## Inside the view -/

section Inside

variable {s : Exposed}

theorem remaining_advanceRead (hin : s.view.InRange) {n : Nat} (hn : n ≤ s.view.rest.length) :
    (s.view.advanceRead n).remainingReadLength = s.view.rest.length - n := by
  rw [ByteStorage.remaining_eq (hin.advanceRead hn), ByteStorage.rest_advanceRead,
    List.length_drop]

/-- What stands in the view is what is read there. -/
theorem take_unread (hin : s.view.InRange) {offset n : Nat}
    (h : offset + n ≤ s.view.rest.length) :
    (s.unread.drop offset).take n = (s.view.rest.drop offset).take n := by
  rw [unread_eq hin, List.drop_append_of_le_length (by omega),
    List.take_append_of_le_length (by rw [List.length_drop]; omega)]

theorem header_inside (hin : s.view.InRange) (h : MsgField.size ≤ s.view.rest.length) :
    typeAt s.unread = typeAt s.view.rest ∧
      identifierLengthAt s.unread = identifierLengthAt s.view.rest ∧
      dataLengthAt s.unread = dataLengthAt s.view.rest := by
  rw [MsgField.size] at h
  have htype := take_unread hin (show 0 + 1 ≤ s.view.rest.length by omega)
  rw [List.drop_zero, List.drop_zero] at htype
  refine ⟨?_, ?_, ?_⟩
  · rw [typeAt, htype, typeAt]
  · rw [identifierLengthAt, take_unread hin (by omega), identifierLengthAt]
  · rw [dataLengthAt, take_unread hin (by omega), dataLengthAt]

/-- A field that is declared to fit. -/
def FieldFits (r : Bytes) : Prop := headerLength r + dataLengthAt r ≤ r.length

theorem FieldFits.size_le {r : Bytes} (h : FieldFits r) : MsgField.size ≤ r.length := by
  rw [FieldFits, headerLength] at h
  omega

theorem headerLength_inside (hin : s.view.InRange) (h : MsgField.size ≤ s.view.rest.length) :
    headerLength s.unread = headerLength s.view.rest := by
  rw [headerLength, (header_inside hin h).2.1, headerLength]

theorem readFieldHeader_inside (hin : s.view.InRange) (hfit : FieldFits s.view.rest) :
    readFieldHeader.run s = (.ok (headerOf s.unread), s.behindHeader) := by
  have hsize := hfit.size_le
  obtain ⟨-, hid, hdata⟩ := header_inside hin hsize
  have hmem := rest_le_unread hin
  rw [FieldFits, headerLength] at hfit
  refine readFieldHeader_ok ?_ ?_ ?_ ?_
  · exact ByteStorage.le_remaining hsize
  · rw [remaining_advanceRead hin hsize, hid]
    omega
  · rw [headerLength, hid, remaining_advanceRead hin (by omega), hdata]
    omega
  · rw [headerLength, hid]
    omega

theorem peekFieldHeader_inside (hin : s.view.InRange) (hfit : FieldFits s.view.rest) :
    peekFieldHeader.run s = (.ok (typeAt s.view.rest, identifierLengthAt s.view.rest,
      dataLengthAt s.view.rest), s) := by
  obtain ⟨htype, hid, hdata⟩ := header_inside hin hfit.size_le
  rw [← htype, ← hid, ← hdata]
  exact peekFieldHeader_ok (hfit.size_le.trans (rest_le_unread hin))

/-- The value that the header declares is there to be read. -/
theorem value_inside (hin : s.view.InRange) (hfit : FieldFits s.view.rest) :
    (headerOf s.unread).dataLength = dataLengthAt s.view.rest ∧
      (headerOf s.unread).dataLength ≤ s.behindHeader.unread.length := by
  have hsize : (headerOf s.unread).dataLength = dataLengthAt s.view.rest :=
    (header_inside hin hfit.size_le).2.2
  have hmem := rest_le_unread hin
  refine ⟨hsize, ?_⟩
  rw [FieldFits] at hfit
  rw [hsize, unread_behindHeader, List.length_drop, headerLength_inside hin (by
    rw [headerLength] at hfit
    omega)]
  omega

theorem createScalarField_inside (hin : s.view.InRange) (hfit : FieldFits s.view.rest) :
    ∃ field, createScalarField.run s =
      (.ok field, (s.behindHeader.noted .raw (dataLengthAt s.view.rest)).advanceRead
        (dataLengthAt s.view.rest)) := by
  obtain ⟨hsize, hvalue⟩ := value_inside hin hfit
  have hrun := createScalarField_ok (readFieldHeader_inside hin hfit) hvalue
  rw [hsize] at hrun
  exact ⟨_, hrun⟩

theorem createDataField_inside (hin : s.view.InRange) (hfit : FieldFits s.view.rest) :
    ∃ field, (createDataField (dataLengthAt s.view.rest)).run s =
      (.ok field, (if dataLengthAt s.view.rest ≤ Field.smallDataMax then
        s.behindHeader.noted .storage (dataLengthAt s.view.rest) else s.behindHeader).advanceRead
          (dataLengthAt s.view.rest)) := by
  obtain ⟨hsize, hvalue⟩ := value_inside hin hfit
  have hrun := createDataField_ok (readFieldHeader_inside hin hfit) hvalue
  rwa [hsize] at hrun

/-- Whoever else has a look at the header, the constructor refuses it. -/
theorem readFieldHeader_refused (hin : s.view.InRange) (hshort : ¬ FieldFits s.view.rest) :
    ∃ s', readFieldHeader.run s = (.error (.exception "Decode failed"), s') := by
  by_cases hsize : MsgField.size ≤ s.view.rest.length
  · obtain ⟨-, hid, hdata⟩ := header_inside hin hsize
    have hmem := rest_le_unread hin
    rw [FieldFits, headerLength] at hshort
    rw [readFieldHeader_begun (ByteStorage.le_remaining hsize) (by omega),
      remaining_advanceRead hin hsize]
    by_cases hroom : s.view.rest.length - MsgField.size ≥ identifierLengthAt s.unread
    · have hpeek : (peekBytes 0 (identifierLengthAt s.unread)).run (s.advanceRead MsgField.size) =
          (.ok ((s.unread.drop MsgField.size).take (identifierLengthAt s.unread)),
            s.advanceRead MsgField.size) := by
        rw [peekBytes_ok (by rw [unread_advanceRead, List.length_drop]; omega),
          unread_advanceRead, List.drop_zero]
      rw [if_pos hroom, Exec.bind_ok hpeek, copyInto, Exec.bind_ok (Exec.modify_run _ _),
        Exec.bind_ok (Exec.modify_run _ _)]
      change ∃ s', (onView Exec.get >>= _).run (((s.advanceRead MsgField.size).noted .identifier
        (identifierLengthAt s.unread + 1)).advanceRead (identifierLengthAt s.unread)) = _
      have hleft : ¬ (((s.advanceRead MsgField.size).noted .identifier
          (identifierLengthAt s.unread + 1)).advanceRead
            (identifierLengthAt s.unread)).view.remainingReadLength ≥ dataLengthAt s.unread := by
        change ¬ ((s.view.advanceRead MsgField.size).advanceRead
          (identifierLengthAt s.unread)).remainingReadLength ≥ _
        rw [ByteStorage.advanceRead_advanceRead, remaining_advanceRead hin (by omega)]
        omega
      rw [Exec.bind_ok (onView_get _), if_neg hleft]
      exact ⟨_, rfl⟩
    · rw [if_neg hroom]
      exact ⟨_, rfl⟩
  · have hleft : ¬ s.view.remainingReadLength ≥ MsgField.size := by
      rw [ByteStorage.remaining_eq hin]
      exact hsize
    rw [readFieldHeader, Exec.bind_ok (onView_get s), if_neg hleft]
    exact ⟨_, rfl⟩

end Inside

/-! ## Steps -/

/-- `s'` is `n` bytes further on in the same memory, and what was copied has been copied. -/
structure Stepped (s : Exposed) (n : Nat) (s' : Exposed) : Prop where
  view : s'.view = s.view.advanceRead n
  behind : s'.behind = s.behind
  copies : ∀ c ∈ s.copies, c ∈ s'.copies

namespace Stepped

variable {s s₁ s₂ : Exposed} {n k : Nat}

theorem refl (s : Exposed) : Stepped s 0 s := ⟨rfl, rfl, fun _ hc => hc⟩

theorem advanceRead (s : Exposed) (n : Nat) : Stepped s n (s.advanceRead n) :=
  ⟨rfl, rfl, fun _ hc => hc⟩

theorem noted (array : FixedArray) (length : Nat) (s : Exposed) :
    Stepped s 0 (s.noted array length) :=
  ⟨rfl, rfl, fun _ hc => List.mem_append_left _ hc⟩

theorem trans (h : Stepped s n s₁) (h' : Stepped s₁ k s₂) : Stepped s (n + k) s₂ where
  view := by rw [h'.view, h.view, ByteStorage.advanceRead_advanceRead]
  behind := h'.behind.trans h.behind
  copies c hc := h'.copies c (h.copies c hc)

theorem unread (h : Stepped s n s₁) : s₁.unread = s.unread.drop n := by
  rw [Exposed.unread, memory, h.view, h.behind]
  exact unread_advanceRead s n

theorem rest (h : Stepped s n s₁) : s₁.view.rest = s.view.rest.drop n := by
  rw [h.view, ByteStorage.rest_advanceRead]

theorem inRange (h : Stepped s n s₁) (hin : s.view.InRange) (hn : n ≤ s.view.rest.length) :
    s₁.view.InRange := by
  rw [h.view]
  exact hin.advanceRead hn

end Stepped

theorem stepped_behindHeader (s : Exposed) : Stepped s (headerLength s.unread) s.behindHeader :=
  (Stepped.advanceRead s (headerLength s.unread)).trans (.noted _ _ _)

/-! ## What every reader leaves true -/

/-- What reading on and copying leave true. -/
structure Lasting (P : Exposed → Prop) : Prop where
  advanceRead : ∀ s n, P s → P (s.advanceRead n)
  noted : ∀ s array length, P s → P (s.noted array length)

section Lasting

variable {P : Exposed → Prop} {α : Type}

/-- A reader that leaves it true, answering or not. None of them goes on for ever. -/
def Keeps (P : Exposed → Prop) (x : Exec Fault Exposed α) : Prop :=
  Exec.Triple P x (fun _ => P) fun e s => e ≠ .diverged ∧ P s

def KeepsAll (P : Exposed → Prop) (x : Exec Fault Decoding α) : Prop :=
  Exec.Triple (fun s => P s.source) x (fun _ s => P s.source)
    fun e s => e ≠ .diverged ∧ P s.source

theorem keeps_peekBytes (offset n : Nat) : Keeps P (peekBytes offset n) := by
  intro s hs
  by_cases h : n = 0 ∨ s.view.read + offset + n ≤ s.memory.length
  · exact .inl ⟨_, s, by simp only [peekBytes, if_pos h]; rfl, hs⟩
  · exact .inr ⟨_, s, by simp only [peekBytes, if_neg h]; rfl, Fault.noConfusion, hs⟩

theorem keeps_peekScalar (offset w : Nat) : Keeps P (peekScalar offset w) :=
  (keeps_peekBytes offset w).bind fun _ => .pure fun _ => id

theorem Lasting.readScalar (h : Lasting P) (w : Nat) : Keeps P (readScalar w) :=
  (keeps_peekScalar 0 w).bind fun _ =>
    Exec.Triple.bind (.modify fun s hs => h.advanceRead s w hs) fun _ => .pure fun _ => id

theorem Lasting.copyInto (h : Lasting P) (array : FixedArray) (length : Nat) :
    Keeps P (copyInto array length) :=
  .modify fun s hs => h.noted s array length hs

theorem Lasting.step (h : Lasting P) (n : Nat) : Keeps P (Exec.modify (Exposed.advanceRead n)) :=
  .modify fun s hs => h.advanceRead s n hs

theorem keeps_view : Keeps P (onView Exec.get) := fun s hs => .inl ⟨s.view, s, rfl, hs⟩

theorem keeps_throw (what : String) :
    Keeps P (Exec.throw (.exception what) : Exec Fault Exposed α) :=
  .throw fun _ hs => ⟨Fault.noConfusion, hs⟩

theorem Lasting.readFieldHeader (h : Lasting P) : Keeps P readFieldHeader := by
  refine keeps_view.bind fun buffer => ?_
  split
  · refine (h.readScalar 1).bind fun _ => (h.readScalar 1).bind fun _ => (h.readScalar 4).bind
      fun _ => keeps_view.bind fun _ => ?_
    split
    · refine (keeps_peekBytes _ _).bind fun _ => (h.copyInto _ _).bind fun _ =>
        (h.step _).bind fun _ => keeps_view.bind fun _ => ?_
      split
      · exact .pure fun _ => id
      · exact keeps_throw _
    · exact keeps_throw _
  · exact keeps_throw _

theorem Lasting.createScalarField (h : Lasting P) : Keeps P createScalarField :=
  h.readFieldHeader.bind fun _ => (keeps_peekBytes _ _).bind fun _ => (h.copyInto _ _).bind fun _ =>
    (h.step _).bind fun _ => .pure fun _ => id

theorem Lasting.createDataField (h : Lasting P) (size : Nat) : Keeps P (createDataField size) := by
  refine h.readFieldHeader.bind fun _ => (keeps_peekBytes _ _).bind fun _ => ?_
  split
  · exact (h.copyInto _ _).bind fun _ => (h.step _).bind fun _ => .pure fun _ => id
  · exact (h.step _).bind fun _ => .pure fun _ => id

theorem Lasting.createDateTimeField (h : Lasting P) : Keeps P createDateTimeField :=
  h.readFieldHeader.bind fun _ => (h.readScalar 8).bind fun _ => (h.readScalar 8).bind fun _ =>
    .pure fun _ => id

theorem onSource_ok {x : Exec Fault Exposed α} {s : Decoding} {a : α} {source : Exposed}
    (h : x.run s.source = (.ok a, source)) :
    (onSource x).run s = (.ok a, { s with source := source }) :=
  Exec.zoom_ok h

theorem onSource_error {x : Exec Fault Exposed α} {s : Decoding} {e : Fault} {source : Exposed}
    (h : x.run s.source = (.error e, source)) :
    (onSource x).run s = (.error e, { s with source := source }) :=
  Exec.zoom_error h

theorem keepsAll_onSource {x : Exec Fault Exposed α} (h : Keeps P x) : KeepsAll P (onSource x) := by
  intro s hs
  obtain ⟨a, source, hrun, hP⟩ | ⟨e, source, hrun, hP⟩ := h s.source hs
  · exact .inl ⟨a, _, onSource_ok hrun, hP⟩
  · exact .inr ⟨e, _, onSource_error hrun, hP⟩

theorem keepsAll_onFresh {x : Exec Fault Decoding α} (h : KeepsAll P x) :
    KeepsAll P (onFresh x) := by
  intro s hs
  obtain ⟨a, sub, hrun, hP⟩ | ⟨e, sub, hrun, hP⟩ := h ⟨Message.new, s.source⟩ hs
  · exact .inl ⟨sub.msg, { s with source := sub.source }, by simp only [onFresh, hrun], hP⟩
  · exact .inr ⟨e, { s with source := sub.source }, by simp only [onFresh, hrun], hP⟩

theorem keeps_peekFieldHeader : Keeps P peekFieldHeader :=
  (keeps_peekScalar 0 1).bind fun _ => (keeps_peekScalar 1 1).bind fun _ =>
    (keeps_peekScalar 2 4).bind fun _ => .pure fun _ => id

theorem Lasting.decodeField (h : Lasting P) {body : Exec Fault Decoding Bool}
    (hbody : KeepsAll P body) : KeepsAll P (decodeField body) := by
  refine (keepsAll_onSource keeps_peekFieldHeader).bind fun header => ?_
  obtain ⟨type, identifierLength, dataSize⟩ := header
  cases type with
  | string | data => exact keepsAll_onSource (h.createDataField dataSize)
  | dateTime => exact keepsAll_onSource h.createDateTimeField
  | message =>
      exact (keepsAll_onSource h.readFieldHeader).bind fun _ =>
        (keepsAll_onFresh hbody).bind fun _ => .pure fun _ => id
  | _ => exact keepsAll_onSource h.createScalarField

theorem Lasting.decodeBody (h : Lasting P) {fields : Nat → Exec Fault Decoding Unit}
    (hfields : ∀ count, KeepsAll P (fields count)) : KeepsAll P (decodeBody fields) := by
  refine Exec.Triple.bind (Q := fun _ s => P s.source) (fun s hs => .inl ⟨s, s, rfl, hs⟩)
    fun s => ?_
  split
  · refine (keepsAll_onSource (h.readScalar 1)).bind fun chk => ?_
    split
    · exact .throw fun _ hs => ⟨Fault.noConfusion, hs⟩
    · exact (keepsAll_onSource (h.readScalar 4)).bind fun count => (hfields count).bind fun _ =>
        .pure fun _ => id
  · exact .pure fun _ => id

theorem Lasting.decodeFields (h : Lasting P) (fuel count : Nat) :
    KeepsAll P (decodeFields fuel count) := by
  induction fuel generalizing count with
  | zero =>
      cases count with
      | zero => exact .pure fun _ => id
      | succ count => exact .throw fun _ hs => ⟨Fault.noConfusion, hs⟩
  | succ fuel ih =>
      cases count with
      | zero => exact .pure fun _ => id
      | succ count =>
          exact (h.decodeField (h.decodeBody ih)).bind fun _ =>
            Exec.Triple.bind (.modify fun _ => id) fun _ => ih count

theorem Lasting.addressingDetails (h : Lasting P) : Keeps P addressingDetails := by
  refine Exec.Triple.bind (Q := fun _ => P) (keeps_view.bind fun buffer => ?_) fun found => ?_
  · split
    · refine (keeps_peekScalar 0 1).bind fun chk => ?_
      split
      · exact .pure fun _ => id
      · refine (keeps_peekScalar 1 8).bind fun field => ?_
        dsimp only
        split
        · exact .pure fun _ => id
        · exact .pure fun _ => id
    · exact .pure fun _ => id
  · obtain ⟨status, msgLength⟩ := found
    cases status with
    | complete =>
        exact (h.step 1).bind fun _ => (h.step 8).bind fun _ => (keeps_peekScalar 0 1).bind
          fun _ => (h.step 1).bind fun _ => (h.step 4).bind fun _ => (keeps_peekScalar 0 2).bind
          fun _ => (h.step 2).bind fun _ => keeps_view.bind fun _ => (h.step _).bind fun _ =>
          .pure fun _ => id
    | incomplete | corrupt => exact .pure fun _ => id

theorem keeps_copyFrom (position n : Nat) : Keeps P (copyFrom position n) := by
  intro s hs
  have hpeek := keeps_peekBytes (P := fun _ => True) 0 n
    { s with view := { s.view with read := position } } trivial
  obtain ⟨a, _, hrun, -⟩ | ⟨e, _, hrun, hne, -⟩ := hpeek
  · exact .inl ⟨a, s, by simp only [copyFrom, hrun], hs⟩
  · exact .inr ⟨e, s, by simp only [copyFrom, hrun], hne, hs⟩

theorem Lasting.decode (h : Lasting P) : KeepsAll P decode := by
  refine Exec.Triple.bind (Q := fun _ s => P s.source) (fun s hs => .inl ⟨s, s, rfl, hs⟩)
    fun s => (keepsAll_onSource h.addressingDetails).bind fun found => ?_
  obtain ⟨status, addressing⟩ := found
  cases status with
  | complete =>
      cases addressing with
      | some a =>
          dsimp only
          exact Exec.Triple.bind (.modify fun _ => id) fun _ =>
            (keepsAll_onSource (keeps_copyFrom _ _)).bind fun _ =>
            (keepsAll_onSource (h.copyInto _ _)).bind fun _ =>
            Exec.Triple.bind (.modify fun _ => id) fun _ => h.decodeBody (h.decodeFields _)
      | none => exact .pure fun _ => id
  | incomplete => exact .pure fun _ => id
  | corrupt => exact .throw fun _ hs => ⟨Fault.noConfusion, hs⟩

/-- What is kept is true behind an answer. -/
theorem KeepsAll.ok {x : Exec Fault Decoding α} (h : KeepsAll P x) {s s' : Decoding} {a : α}
    (hs : P s.source) (hrun : x.run s = (.ok a, s')) : P s'.source := by
  obtain ⟨_, t, hrun', hP⟩ | ⟨e, t, hrun', -⟩ := h s hs
  · rw [hrun] at hrun'
    cases hrun'
    exact hP
  · rw [hrun] at hrun'
    cases hrun'

theorem KeepsAll.state {x : Exec Fault Decoding α}
    (h : KeepsAll P x) {s : Decoding} (hs : P s.source) : P (x.run s).2.source := by
  obtain ⟨_, t, hrun, hP⟩ | ⟨_, t, hrun, -, hP⟩ := h s hs
  · rwa [hrun]
  · rwa [hrun]

end Lasting

/-- `s'` has its cursor past the end of the view that it shares with `s`. -/
def Beyond (s s' : Exposed) : Prop :=
  s'.view.bytes = s.view.bytes ∧ s.view.bytes.length < s'.view.read

theorem lasting_beyond (s : Exposed) : Lasting (Beyond s) where
  advanceRead _ _ h := ⟨h.1, Nat.lt_add_right _ h.2⟩
  noted _ _ _ h := h

/-- The view stays the one it is, up to its cursor. -/
theorem lasting_view (bytes : Bytes) (marked : Nat) :
    Lasting fun s => s.view.bytes = bytes ∧ s.view.marked = marked where
  advanceRead _ _ h := h
  noted _ _ _ h := h

theorem lasting_mem (c : Copy) : Lasting fun s => c ∈ s.copies where
  advanceRead _ _ h := h
  noted _ _ _ h := List.mem_append_left _ h

end Exposed

end Fastpath
