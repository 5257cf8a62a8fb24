import Fastpath.Model.Nesting
import Fastpath.Proofs.Alike

/-!
# Nested decoding terminates

Whoever reads a field reads its header first, which are six bytes, and who has
called whom makes no difference to the buffer. So the unread bytes are the
variant of the loop and of the recursion at once, and six times the fields
constructed so far and the bytes still unread never come to more than there was
at the start. Counts and lengths in the buffer play no part in either.
-/

namespace Fastpath

open Fastpath.Lib

/-! ## What a read takes off the buffer -/

namespace ByteStorage

variable {α β : Type} {j k : Nat}

/-- An answer has cost at least `k` bytes, and a stop has not come from a lack of fuel. -/
def Takes (k : Nat) (x : Exec Fault ByteStorage α) : Prop :=
  ∀ b, (∃ a b', x.run b = (.ok a, b') ∧ b'.rest.length + k ≤ b.rest.length) ∨
    ∃ e b', x.run b = (.error e, b') ∧ e ≠ .diverged ∧ b'.rest.length ≤ b.rest.length

theorem Takes.bind {x : Exec Fault ByteStorage α} {f : α → Exec Fault ByteStorage β}
    (hx : Takes j x) (hf : ∀ a, Takes k (f a)) : Takes (j + k) (x >>= f) := by
  intro b
  obtain ⟨a, b₁, hrun, hlen⟩ | ⟨e, b₁, hrun, he⟩ := hx b
  · rw [Exec.bind_ok hrun]
    obtain ⟨c, b₂, hrun', hlen'⟩ | ⟨e, b₂, hrun', he, hlen'⟩ := hf a b₁
    · exact .inl ⟨c, b₂, hrun', by omega⟩
    · exact .inr ⟨e, b₂, hrun', he, by omega⟩
  · exact .inr ⟨e, b₁, Exec.bind_error hrun, he⟩

theorem Takes.pure (a : α) : Takes 0 (Pure.pure a : Exec Fault ByteStorage α) :=
  fun b => .inl ⟨a, b, rfl, Nat.le_refl _⟩

theorem Takes.throw {e : Fault} (h : e ≠ .diverged) :
    Takes k (Exec.throw e : Exec Fault ByteStorage α) :=
  fun b => .inr ⟨e, b, rfl, h, Nat.le_refl _⟩

theorem Takes.mono {x : Exec Fault ByteStorage α} (h : Takes k x) (hle : j ≤ k) : Takes j x := by
  intro b
  obtain ⟨a, b', hrun, hlen⟩ | hstop := h b
  · exact .inl ⟨a, b', hrun, by omega⟩
  · exact .inr hstop

theorem takes_get : Takes 0 (Exec.get : Exec Fault ByteStorage ByteStorage) :=
  fun b => .inl ⟨b, b, rfl, Nat.le_refl _⟩

theorem takes_advanceRead (n : Nat) : Takes 0 (Exec.modify (advanceRead n)) := by
  intro b
  refine .inl ⟨(), _, rfl, ?_⟩
  rw [rest_advanceRead, List.length_drop]
  exact Nat.sub_le _ _

theorem takes_peekBytes (offset n : Nat) : Takes 0 (peekBytes offset n) := by
  intro b
  rw [peekBytes]
  dsimp only
  split
  · exact .inl ⟨_, b, rfl, Nat.le_refl _⟩
  · exact .inr ⟨_, b, rfl, Fault.noConfusion, Nat.le_refl _⟩

theorem takes_peekScalar (offset w : Nat) : Takes 0 (peekScalar offset w) :=
  (takes_peekBytes offset w).bind fun _ => .pure _

theorem takes_readScalar (w : Nat) : Takes w (readScalar w) := by
  intro b
  by_cases hw : w ≤ b.rest.length
  · refine .inl ⟨_, _, readScalar_ok hw, ?_⟩
    rw [rest_advanceRead, List.length_drop]
    omega
  · exact .inr ⟨_, _, readScalar_past (by omega) (Nat.lt_of_not_le hw), Fault.noConfusion,
      Nat.le_refl _⟩

end ByteStorage

open ByteStorage

theorem takes_peekFieldHeader : Takes 0 peekFieldHeader :=
  (takes_peekScalar _ _).bind fun _ => (takes_peekScalar _ _).bind fun _ =>
    (takes_peekScalar _ _).bind fun _ => .pure _

theorem takes_readFieldHeader : Takes MsgField.size readFieldHeader := by
  refine (takes_get.bind (k := 6) fun buffer => ?_).mono (Nat.le_refl 6)
  split
  · refine (takes_readScalar 1).bind (k := 5) fun type => (takes_readScalar 1).bind (k := 4)
      fun identifierLength => (takes_readScalar 4).bind (k := 0) fun dataLength =>
      takes_get.bind (k := 0) fun buffer => ?_
    split
    · refine (takes_peekBytes _ _).bind (k := 0) fun identifier =>
        (takes_advanceRead _).bind (k := 0) fun _ => takes_get.bind (k := 0) fun buffer => ?_
      split
      · exact .pure _
      · exact .throw Fault.noConfusion
    · exact .throw Fault.noConfusion
  · exact .throw Fault.noConfusion

theorem takes_createScalarField : Takes MsgField.size createScalarField := by
  refine takes_readFieldHeader.bind (k := 0) fun header =>
    (takes_peekBytes _ _).bind (k := 0) fun data => ?_
  split
  · exact (takes_advanceRead _).bind fun _ => .pure _
  · exact .throw Fault.noConfusion

theorem takes_createDataField (size : Nat) : Takes MsgField.size (createDataField size) := by
  refine takes_readFieldHeader.bind (k := 0) fun header =>
    (takes_peekBytes _ _).bind (k := 0) fun value => ?_
  split
  · split
    · exact (takes_advanceRead _).bind fun _ => .pure _
    · exact .throw Fault.noConfusion
  · exact (takes_advanceRead _).bind fun _ => .pure _

theorem takes_createDateTimeField : Takes MsgField.size createDateTimeField :=
  (takes_readFieldHeader.bind fun _ => (takes_readScalar 8).bind fun _ =>
    (takes_readScalar 8).bind fun _ => .pure _).mono (Nat.le_add_right _ _)

/-! ## Constructors and bytes together -/

namespace Counted

variable {α β : Type} {m n j k : Nat}

/-- The bytes that the constructed fields have cost at least, and those that are left. -/
def total (s : Counted) : Nat := MsgField.size * s.constructed + s.rest.length

/-- An answer has cost at least `k` bytes, a stop with fewer than `n` bytes unread has not come
from a lack of fuel, and the total has not grown. -/
def Pays (n k : Nat) (x : Exec Fault Counted α) : Prop :=
  ∀ s, (∃ a s', x.run s = (.ok a, s') ∧ s'.rest.length + k ≤ s.rest.length ∧
      s'.total + k ≤ s.total) ∨
    ∃ e s', x.run s = (.error e, s') ∧ (s.rest.length < n → e ≠ .diverged) ∧ s'.total ≤ s.total

theorem Pays.bind {x : Exec Fault Counted α} {f : α → Exec Fault Counted β} (hx : Pays n j x)
    (hf : ∀ a, Pays (n - j) k (f a)) : Pays n (j + k) (x >>= f) := by
  intro s
  obtain ⟨a, s₁, hrun, hrest, htotal⟩ | ⟨e, s₁, hrun, he⟩ := hx s
  · rw [Exec.bind_ok hrun]
    obtain ⟨b, s₂, hrun', hrest', htotal'⟩ | ⟨e, s₂, hrun', he, htotal'⟩ := hf a s₁
    · exact .inl ⟨b, s₂, hrun', by omega, by omega⟩
    · exact .inr ⟨e, s₂, hrun', fun hs => he (by omega), by omega⟩
  · exact .inr ⟨e, s₁, Exec.bind_error hrun, he⟩

theorem Pays.pure (a : α) : Pays n 0 (Pure.pure a : Exec Fault Counted α) :=
  fun s => .inl ⟨a, s, rfl, Nat.le_refl _, Nat.le_refl _⟩

theorem Pays.throw {e : Fault} (h : e ≠ .diverged) :
    Pays n k (Exec.throw e : Exec Fault Counted α) :=
  fun s => .inr ⟨e, s, rfl, fun _ => h, Nat.le_refl _⟩

theorem Pays.mono {x : Exec Fault Counted α} (h : Pays n j x) (hn : m ≤ n) (hk : k ≤ j) :
    Pays m k x := by
  intro s
  obtain ⟨a, s', hrun, hrest, htotal⟩ | ⟨e, s', hrun, he, htotal⟩ := h s
  · exact .inl ⟨a, s', hrun, by omega, by omega⟩
  · exact .inr ⟨e, s', hrun, fun hs => he (by omega), htotal⟩

theorem pays_get : Pays n 0 (onDecode Exec.get) :=
  fun s => .inl ⟨s.decode, s, rfl, Nat.le_refl _, Nat.le_refl _⟩

theorem pays_push (field : Field) : Pays n 0 (onDecode (Exec.modify (DecodeState.push field))) :=
  fun _ => .inl ⟨(), _, rfl, Nat.le_refl _, Nat.le_refl _⟩

theorem onBuffer_run (x : Exec Fault ByteStorage α) (s : Counted) :
    (onBuffer x).run s = ((x.run s.decode.buffer).1,
      ⟨{ s.decode with buffer := (x.run s.decode.buffer).2 }, s.constructed⟩) := rfl

/-- What has been counted so far stays, whatever is read. -/
theorem pays_onBuffer {x : Exec Fault ByteStorage α} (h : ByteStorage.Takes k x) :
    Pays n k (onBuffer x) := by
  intro s
  rw [onBuffer_run]
  obtain ⟨a, b, hrun, hlen⟩ | ⟨e, b, hrun, he, hlen⟩ := h s.decode.buffer
  · rw [hrun]
    refine .inl ⟨a, _, rfl, hlen, ?_⟩
    rw [total, total, Nat.add_assoc]
    exact Nat.add_le_add_left hlen _
  · rw [hrun]
    refine .inr ⟨e, _, rfl, fun _ => he, ?_⟩
    rw [total, total]
    exact Nat.add_le_add_left hlen _

/-- The decoder of a nested message goes on where its caller has stopped. -/
theorem pays_onFresh {x : Exec Fault Counted α} (h : Pays n 0 x) : Pays n 0 (onFresh x) := by
  intro s
  obtain ⟨a, sub, hrun, hrest, htotal⟩ | ⟨e, sub, hrun, he, htotal⟩ :=
    h ⟨⟨Message.new, s.decode.buffer⟩, s.constructed⟩
  · refine .inl ⟨sub.decode.msg, ⟨{ s.decode with buffer := sub.decode.buffer }, sub.constructed⟩,
      ?_, hrest, htotal⟩
    simp only [onFresh, hrun]
  · refine .inr ⟨e, ⟨{ s.decode with buffer := sub.decode.buffer }, sub.constructed⟩, ?_, he,
      htotal⟩
    simp only [onFresh, hrun]

variable {body : Exec Fault Counted Bool}

/-- Whatever the constructor, it reads a header; a nested body is decoded with what is left. -/
theorem pays_createField (type : StorageType) (dataSize : Nat) (hbody : Pays n 0 body) :
    Pays (n + 1) MsgField.size (createField type dataSize body) := by
  cases type with
  | string => exact pays_onBuffer (takes_createDataField dataSize)
  | data => exact pays_onBuffer (takes_createDataField dataSize)
  | dateTime => exact pays_onBuffer takes_createDateTimeField
  | message =>
      refine (pays_onBuffer takes_readFieldHeader).bind (k := 0) fun header => ?_
      refine Pays.bind (j := 0) (k := 0) ?_ fun msg => .pure _
      exact (pays_onFresh hbody).mono (Nat.sub_le_sub_left (by decide : 1 ≤ MsgField.size) (n + 1))
        (Nat.le_refl _)
  | _ => exact pays_onBuffer takes_createScalarField

/-- A field that has been constructed has cost what it counts for. -/
theorem decodeField_pays (hbody : Pays n 0 body) (s : Counted) :
    (∃ field s', (decodeField body).run s = (.ok field, s') ∧
        s'.rest.length + MsgField.size ≤ s.rest.length ∧ s'.total ≤ s.total) ∨
      ∃ e s', (decodeField body).run s = (.error e, s') ∧
        (s.rest.length < n + 1 → e ≠ .diverged) ∧ s'.total ≤ s.total := by
  rw [decodeField]
  obtain ⟨⟨type, identifierLength, dataSize⟩, s₁, hpeek, hrest, htotal⟩ | ⟨e, s₁, hpeek, he⟩ :=
    pays_onBuffer (n := n + 1) takes_peekFieldHeader s
  · rw [Exec.bind_ok hpeek]
    dsimp only
    obtain ⟨field, s₂, hcreate, hrest', htotal'⟩ | ⟨e, s₂, hcreate, he, htotal'⟩ :=
      pays_createField type dataSize hbody s₁
    · rw [Exec.bind_ok hcreate, Exec.bind_ok (Exec.modify_run _ _)]
      refine .inl ⟨field, s₂.count, rfl, ?_, ?_⟩
      · show s₂.rest.length + MsgField.size ≤ s.rest.length
        omega
      · rw [total] at htotal' ⊢
        show MsgField.size * (s₂.constructed + 1) + s₂.rest.length ≤ s.total
        rw [Nat.mul_succ]
        omega
    · exact .inr ⟨e, s₂, Exec.bind_error hcreate, fun hs => he (by omega), by omega⟩
  · exact .inr ⟨e, s₁, Exec.bind_error hpeek, he⟩

theorem pays_decodeBody {fields : Nat → Exec Fault Counted Unit}
    (hfields : ∀ count, Pays n 0 (fields count)) : Pays n 0 (decodeBody fields) := by
  refine pays_get.bind (k := 0) fun s => ?_
  split
  · refine ((pays_onBuffer (ByteStorage.takes_readScalar 1)).mono (Nat.le_refl _)
      (Nat.zero_le _)).bind (k := 0) fun chk => ?_
    split
    · exact .throw Fault.noConfusion
    · refine ((pays_onBuffer (ByteStorage.takes_readScalar 4)).mono (Nat.le_refl _)
        (Nat.zero_le _)).bind (k := 0) fun count => ?_
      exact (hfields count).bind (k := 0) fun _ => .pure _
  · exact .pure _

/-- A fuel beyond the unread bytes is never used up. -/
theorem pays_decodeFields (fuel count : Nat) : Pays fuel 0 (decodeFields fuel count) := by
  induction fuel generalizing count with
  | zero =>
      cases count with
      | zero => exact .pure ()
      | succ count =>
          exact fun s => .inr ⟨_, s, rfl, fun hs => absurd hs (Nat.not_lt_zero _), Nat.le_refl _⟩
  | succ fuel ih =>
      cases count with
      | zero => exact .pure ()
      | succ count =>
          intro s
          rw [decodeFields]
          obtain ⟨field, s', hrun, hrest, htotal⟩ | ⟨e, s', hrun, he⟩ :=
            decodeField_pays (pays_decodeBody ih) s
          · have hloop := (pays_push (n := fuel) field).bind (k := 0) fun _ => ih count
            rw [MsgField.size] at hrest
            rw [Exec.bind_ok hrun]
            obtain ⟨a, t, hrun', hrest', htotal'⟩ | ⟨e, t, hrun', he, htotal'⟩ := hloop s'
            · exact .inl ⟨a, t, hrun', by omega, by omega⟩
            · exact .inr ⟨e, t, hrun', fun hs => he (by omega), by omega⟩
          · exact .inr ⟨e, s', Exec.bind_error hrun, he⟩

/-! ## Two fuels, and no count -/

/-- The fuel has run out. -/
def Diverged (e : Fault) : Prop := e = .diverged

/-- What a decoder that counts has in common with one that does not. -/
def Uncounted (s : Counted) (t : DecodeState) : Prop := s.decode = t

variable {body' : Exec Fault Counted Bool} {plain : Exec Fault DecodeState Bool}

theorem onFresh_mono (h : Exec.Follows Eq Diverged body body') :
    Exec.Follows Eq Diverged (onFresh body) (onFresh body') := by
  rintro s - rfl
  have hsub := h ⟨⟨Message.new, s.decode.buffer⟩, s.constructed⟩ _ rfl
  simp only [onFresh]
  cases hrun : body.run ⟨⟨Message.new, s.decode.buffer⟩, s.constructed⟩ with
  | mk answer sub =>
      rw [hrun] at hsub
      obtain ⟨e, he, hlimit⟩ | ⟨hanswer, hstate⟩ := hsub
      · dsimp only at hlimit
        subst hlimit
        exact .inl ⟨e, he, rfl⟩
      · dsimp only at hanswer hstate
        rw [← hanswer, ← hstate]
        exact .inr ⟨rfl, rfl⟩

theorem decodeField_mono (h : Exec.Follows Eq Diverged body body') :
    Exec.Follows Eq Diverged (decodeField body) (decodeField body') := by
  refine (Exec.Follows.refl _).bind fun header => ?_
  obtain ⟨type, identifierLength, dataSize⟩ := header
  refine Exec.Follows.bind ?_ fun field => .refl _
  cases type with
  | message => exact (Exec.Follows.refl _).bind fun header => (onFresh_mono h).bind fun _ => .refl _
  | _ => exact .refl _

theorem decodeBody_mono {fields fields' : Nat → Exec Fault Counted Unit}
    (h : ∀ count, Exec.Follows Eq Diverged (fields count) (fields' count)) :
    Exec.Follows Eq Diverged (decodeBody fields) (decodeBody fields') := by
  refine (Exec.Follows.refl _).bind fun s => ?_
  split
  · refine (Exec.Follows.refl _).bind fun chk => ?_
    split
    · exact .refl _
    · exact (Exec.Follows.refl _).bind fun count => (h count).bind fun _ => .refl _
  · exact .refl _

/-- Unless it runs out, a fuel does what a larger one does. -/
theorem decodeFields_mono {fuel fuel' : Nat} (hle : fuel ≤ fuel') (count : Nat) :
    Exec.Follows Eq Diverged (decodeFields fuel count) (decodeFields fuel' count) := by
  induction fuel generalizing fuel' count with
  | zero =>
      cases count with
      | zero =>
          rw [decodeFields, decodeFields]
          exact .refl _
      | succ count => exact .exhausted (show Diverged .diverged from rfl) _
  | succ fuel ih =>
      cases fuel' with
      | zero => exact absurd hle (Nat.not_succ_le_zero _)
      | succ fuel' =>
          have hle' := Nat.le_of_succ_le_succ hle
          cases count with
          | zero => exact .refl _
          | succ count =>
              exact (decodeField_mono (decodeBody_mono fun count => ih hle' count)).bind
                fun field => (Exec.Follows.refl _).bind fun _ => ih hle' count

theorem onDecode_follows (x : Exec Fault DecodeState α) :
    Exec.Follows Uncounted Diverged (onDecode x) x :=
  .part (fun _ _ => rfl) x

theorem onFresh_follows (h : Exec.Follows Uncounted Diverged body plain) :
    Exec.Follows Uncounted Diverged (onFresh body) (DecodeState.onFresh plain) := by
  rintro s - rfl
  have hsub := h ⟨⟨Message.new, s.decode.buffer⟩, s.constructed⟩ _ rfl
  simp only [onFresh, DecodeState.onFresh]
  cases hrun : body.run ⟨⟨Message.new, s.decode.buffer⟩, s.constructed⟩ with
  | mk answer sub =>
      cases hrun' : plain.run ⟨Message.new, s.decode.buffer⟩ with
      | mk answer' sub' =>
          rw [hrun, hrun'] at hsub
          obtain ⟨e, he, hlimit⟩ | ⟨hanswer, hstate⟩ := hsub
          · dsimp only at hlimit
            subst hlimit
            exact .inl ⟨e, he, rfl⟩
          · dsimp only [Uncounted] at hanswer hstate
            subst hanswer hstate
            cases answer with
            | ok a => exact .inr ⟨rfl, rfl⟩
            | error e => exact .inr ⟨rfl, rfl⟩

/-- The count is all that the two have not in common. -/
theorem bind_count_follows {x : Exec Fault Counted α} {y : Exec Fault DecodeState α}
    (h : Exec.Follows Uncounted Diverged x y) :
    Exec.Follows Uncounted Diverged (x >>= fun a => Exec.modify count >>= fun _ => pure a)
      y := by
  intro s t hst
  cases hrun : x.run s with
  | mk answer s' =>
      have hfirst := h s t hst
      rw [hrun] at hfirst
      cases answer with
      | ok a =>
          rw [Exec.bind_ok hrun, Exec.bind_ok (Exec.modify_run _ _)]
          exact hfirst
      | error e =>
          rw [Exec.bind_error hrun]
          obtain hlimit | ⟨hanswer, hstate⟩ := hfirst
          · exact .inl hlimit
          · exact .inr ⟨hanswer, hstate⟩

theorem decodeField_follows (h : Exec.Follows Uncounted Diverged body plain) :
    Exec.Follows Uncounted Diverged (decodeField body) (Fastpath.decodeField plain) := by
  refine (onDecode_follows _).bind fun header => ?_
  obtain ⟨type, identifierLength, dataSize⟩ := header
  refine bind_count_follows ?_
  cases type with
  | message =>
      exact (onDecode_follows _).bind fun header => (onFresh_follows h).bind fun msg => .pure _
  | _ => exact onDecode_follows _

theorem decodeBody_follows {fields : Nat → Exec Fault Counted Unit}
    {plain : Nat → Exec Fault DecodeState Unit}
    (h : ∀ count, Exec.Follows Uncounted Diverged (fields count) (plain count)) :
    Exec.Follows Uncounted Diverged (decodeBody fields) (Fastpath.decodeBody plain) := by
  refine (onDecode_follows _).bind fun s => ?_
  split
  · refine (onDecode_follows _).bind fun chk => ?_
    split
    · exact .throw _
    · exact (onDecode_follows _).bind fun count => (h count).bind fun _ => .pure _
  · exact .pure _

theorem decodeFields_follows (fuel count : Nat) :
    Exec.Follows Uncounted Diverged (decodeFields fuel count)
      (Fastpath.decodeFields fuel count) := by
  induction fuel generalizing count with
  | zero =>
      cases count with
      | zero => exact .pure ()
      | succ count => exact .exhausted (show Diverged .diverged from rfl) _
  | succ fuel ih =>
      cases count with
      | zero => exact .pure ()
      | succ count =>
          exact (decodeField_follows (decodeBody_follows ih)).bind fun field =>
            (onDecode_follows _).bind fun _ => ih count

/-! ## The decoder -/

theorem run_ne_diverged {fuel : Nat} (m : Message) {b : ByteStorage} (h : b.rest.length < fuel) :
    (run fuel m b).1 ≠ .error .diverged := by
  obtain ⟨a, s, hrun, -⟩ | ⟨e, s, hrun, he, -⟩ :=
    pays_decodeBody (pays_decodeFields fuel) ⟨⟨m, b⟩, 0⟩
  · rw [run, hrun]
    exact fun heq => by cases heq
  · rw [run, hrun]
    exact fun heq => he h (Except.error.inj heq)

theorem constructed_le (fuel : Nat) (m : Message) (b : ByteStorage) :
    (run fuel m b).2.constructed ≤ b.rest.length / MsgField.size := by
  have htotal : (run fuel m b).2.total ≤ b.rest.length := by
    have hinit : (⟨⟨m, b⟩, 0⟩ : Counted).total = b.rest.length := by
      rw [total, Nat.mul_zero, Nat.zero_add]
      rfl
    obtain ⟨a, s, hrun, -, hs⟩ | ⟨e, s, hrun, -, hs⟩ :=
      pays_decodeBody (pays_decodeFields fuel) ⟨⟨m, b⟩, 0⟩
    · rw [run, hrun, ← hinit]
      exact hs
    · rw [run, hrun, ← hinit]
      exact hs
  refine (Nat.le_div_iff_mul_le (by decide)).mpr ?_
  rw [total] at htotal
  rw [Nat.mul_comm]
  omega

/-- Decoding comes to an end, for every buffer: a fuel beyond the unread bytes makes no difference
to it, and it is the decoder without a count. Of the fields that it constructs each takes six bytes
off the buffer, and there are no more of them than that allows. -/
theorem decode_terminates (m : Message) (b : ByteStorage) :
    (∀ fuel, b.rest.length < fuel →
        (run fuel m b).1 ≠ .error .diverged ∧ run fuel m b = run (b.rest.length + 1) m b ∧
          ((run fuel m b).1, (run fuel m b).2.decode) =
            (Fastpath.decodeBody (Fastpath.decodeFields fuel)).run ⟨m, b⟩) ∧
      (∀ fuel, (run fuel m b).2.constructed ≤ b.rest.length / MsgField.size) ∧
        ∀ fuel s field s',
          (decodeField (decodeBody (decodeFields fuel))).run s = (.ok field, s') →
            s'.rest.length + MsgField.size ≤ s.rest.length := by
  refine ⟨fun fuel hfuel => ⟨run_ne_diverged m hfuel, ?_, ?_⟩, fun fuel => constructed_le fuel m b,
    fun fuel s field s' hrun => ?_⟩
  · obtain hlimit | ⟨hanswer, hstate⟩ :=
      decodeBody_mono (decodeFields_mono (Nat.succ_le_of_lt hfuel)) ⟨⟨m, b⟩, 0⟩ _ rfl
    · obtain ⟨e, rfl, hlimit⟩ := hlimit
      exact absurd hlimit (run_ne_diverged m (Nat.lt_succ_self _))
    · exact (Prod.ext hanswer hstate).symm
  · obtain hlimit | ⟨hanswer, hstate⟩ :=
      decodeBody_follows (decodeFields_follows fuel) ⟨⟨m, b⟩, 0⟩ _ rfl
    · obtain ⟨e, rfl, hlimit⟩ := hlimit
      exact absurd hlimit (run_ne_diverged m hfuel)
    · exact Prod.ext hanswer hstate
  · obtain ⟨_, _, hok, hrest, -⟩ | ⟨e, _, herror, -⟩ :=
      decodeField_pays (pays_decodeBody (pays_decodeFields fuel)) s
    · rw [hrun] at hok
      cases hok
      exact hrest
    · rw [hrun] at herror
      cases herror

end Counted

end Fastpath
