import Fastpath.Lib.Steps
import Fastpath.Proofs.Books

/-!
# What `clear` gives back

The books of the decoder say what it loses in terms of the fields it has made;
here that becomes a condition on the bytes. The class of a data field goes by
the length it declares, and where the walk over the bytes is refused, the
decoder has thrown over some field.

Once lost, a block stays lost. So over a whole run of calls, removals and
decodings, `clear` leaves the arena clean exactly if no step of it has lost a
block; and then there are at most as many slabs as the message ever had fields,
and one.
-/

namespace Fastpath

open Fastpath.Lib

/-! ## Messages -/

/-- No block is lost over the fields of a body: they are read to their end, and their values are
small. -/
def fieldsSmall (fuel count : Nat) (r : Bytes) : Bool :=
  decide ((fieldsExtent fuel count r).Ends fun entries => entries.all Entry.small = true)

/-- No block is lost over a message: no field of it is looked at, or those of its body are read to
their end and their values are small. -/
def messageSmall (r : Bytes) : Bool :=
  match (frameStatus r).1 with
  | .complete =>
      decide (r.length < MsgAddressing.size + subjectLengthAt r) ||
        inBody (fieldsSmall r.length) (r.drop (MsgAddressing.size + subjectLengthAt r))
  | _ => true

/-- Behind a step, something is lost if it was before or if the step was not `tidy`. -/
def Object.Accounts (o : Object) (peak lost : Nat) (tidy : Prop) : Prop :=
  ∃ lost', o.Books peak [] lost' ∧ (lost' = 0 ↔ lost = 0 ∧ tidy)

theorem Object.Books.accounts {o : Object} {peak lost : Nat} (h : o.Books peak [] lost)
    {tidy : Prop}
    (htidy : tidy) : o.Accounts peak lost tidy :=
  ⟨lost, h, (and_iff_left htidy).symm⟩

/-- A fault that the caller of `decode` is promised to see. -/
def Fault.IsException (e : Fault) : Prop := ∃ what, e = .exception what

theorem valueBlocks_sum_eq_zero {fields : List Field} (h : ∀ e ∈ fields, e.Made) :
    (fields.map Field.valueBlocks).sum = 0 ↔ (fields.map Field.entry).all Entry.small = true := by
  rw [List.sum_eq_zero_iff, List.all_eq_true]
  simp only [List.mem_map, forall_exists_index, and_imp, forall_apply_eq_imp_iff₂]
  exact forall₂_congr fun e he => (h e he).small_iff

namespace Reading

variable (layout : Layout) (malloc : Malloc) {peak lost : Nat}

/-- The fields behind an answer of the field loop, as both decoders see them. -/
theorem decodeFields_answers {r r' : Reading} {s s' : DecodeState} (hsame : Same r s)
    (hsame' : Same r' s') (hin : s.buffer.InRange) (hbooks : r.object.Books peak [] lost)
    {fuel count : Nat}
    (hleft : (decodeFields layout malloc fuel count).run r = (.ok (), r'))
    (hright : (Fastpath.decodeFields fuel count).run s = (.ok (), s')) :
    ∃ fields : List Field, (∀ e ∈ fields, e.Made) ∧
      r'.object.Books peak [] (lost + (fields.map Field.valueBlocks).sum) ∧
        ∃ rest, fieldsExtent fuel count s.buffer.rest = .within (fields.map Field.entry) rest := by
  have hstart : Loop r.object.msg.payload peak lost r := ⟨[], (List.append_nil _).symm, hbooks⟩
  have htracks := decodeFields_tracks fuel count s hin
  obtain ⟨fields, hpayload, hmade⟩ : ∃ fields, s'.msg.payload = s.msg.payload ++ fields ∧
      ∀ e ∈ fields, e.Made := by
    refine decodeFields_ensures (I := fun m => ∃ fields, m.payload = s.msg.payload ++ fields ∧
      ∀ e ∈ fields, e.Made) ?_ fuel count s () s'
      ⟨[], (List.append_nil _).symm, List.forall_mem_nil _⟩ hright
    intro m e h he
    obtain ⟨fields, hpayload, hmade⟩ := h
    refine ⟨fields ++ [e], ?_, ?_⟩
    · rw [Message.pushDecoded_payload, hpayload, List.append_assoc]
    · rw [List.forall_mem_append]
      exact ⟨hmade, List.forall_mem_singleton.mpr he⟩
  obtain ⟨_, _, hrun, fields', hpayload', hbooks'⟩ | ⟨_, _, hrun, -⟩ :=
    decodeFields_triple layout malloc r.object.msg.payload fuel count r hstart
  · rw [hleft] at hrun
    cases hrun
    rw [hsame'.msg, hsame.msg, hpayload] at hpayload'
    cases List.append_cancel_left hpayload'
    refine ⟨fields, hmade, hbooks', ?_⟩
    cases hext : fieldsExtent fuel count s.buffer.rest with
    | within entries rest =>
        rw [hext] at htracks
        obtain ⟨_, msg, n, hrun, -, -, -, walked, rfl, rfl⟩ := htracks
        rw [hright] at hrun
        cases hrun
        rw [(foldl_pushDecoded walked s.msg).1] at hpayload
        rw [List.append_cancel_left hpayload]
        exact ⟨rest, rfl⟩
    | refused =>
        rw [hext] at htracks
        obtain ⟨what, msg, n, hrun, -⟩ := htracks
        rw [hright] at hrun
        cases hrun
    | past =>
        rw [hext] at htracks
        obtain ⟨e, s₁, hrun, -⟩ := htracks
        rw [hright] at hrun
        cases hrun
  · rw [hleft] at hrun
    cases hrun

/-- What the field loop loses: what was taken for the values, or the block of the field over which
it throws. -/
theorem decodeFields_accounts {r : Reading} {s : DecodeState} (hsame : Same r s)
    (hin : s.buffer.InRange) (hbooks : r.object.Books peak [] lost) {fuel count : Nat}
    {answer : Except Fault Unit} {r' : Reading}
    (hrun : (decodeFields layout malloc fuel count).run r = (answer, r'))
    (hcaught : ∀ e, answer = .error e → e.IsException) :
    r'.object.Accounts peak lost (fieldsSmall fuel count s.buffer.rest = true) := by
  rw [fieldsSmall, decide_eq_true_iff]
  obtain ⟨_, r₁, _, s₁, hleft, hright, -, hsame'⟩ | ⟨e, r₁, s₁, hleft, hright, -⟩ :=
    decodeFields_alike layout malloc fuel count r s hsame
  · obtain ⟨fields, hmade, hbooks', rest, hext⟩ :=
      decodeFields_answers layout malloc hsame hsame' hin hbooks hleft hright
    rw [hleft] at hrun
    cases hrun
    refine ⟨_, hbooks', ?_⟩
    rw [hext, Nat.add_eq_zero_iff, valueBlocks_sum_eq_zero hmade]
    rfl
  · have hstart : Loop r.object.msg.payload peak lost r := ⟨[], (List.append_nil _).symm, hbooks⟩
    have htracks := decodeFields_tracks fuel count s hin
    rw [hleft] at hrun
    cases hrun
    obtain ⟨what, rfl⟩ := hcaught e rfl
    obtain ⟨_, _, hrun, -⟩ | ⟨_, _, hrun, hwasted⟩ :=
      decodeFields_triple layout malloc r.object.msg.payload fuel count r hstart
    · rw [hleft] at hrun
      cases hrun
    · rw [hleft] at hrun
      cases hrun
      obtain ⟨lost', hbooks'⟩ := hwasted Fault.noConfusion
      refine ⟨lost' + 1, hbooks', iff_of_false (Nat.succ_ne_zero _) fun ⟨_, hends⟩ => ?_⟩
      cases hext : fieldsExtent fuel count s.buffer.rest with
      | within entries rest =>
          rw [hext] at htracks
          obtain ⟨_, msg, n, hrun, -⟩ := htracks
          rw [hright] at hrun
          cases hrun
      | refused =>
          rw [hext] at hends
          exact hends
      | past =>
          rw [hext] at hends
          exact hends

theorem onBuffer_ok {α : Type} {x : Exec Fault ByteStorage α} {o : Object} {b b' : ByteStorage}
    {a : α} (h : x.run b = (.ok a, b')) : (onBuffer x).run ⟨o, b⟩ = (.ok a, ⟨o, b'⟩) :=
  Exec.zoom_ok (t := b') h

theorem onBuffer_error {α : Type} {x : Exec Fault ByteStorage α} {o : Object} {b b' : ByteStorage}
    {e : Fault} (h : x.run b = (.error e, b')) : (onBuffer x).run ⟨o, b⟩ = (.error e, ⟨o, b'⟩) :=
  Exec.zoom_error (t := b') h

theorem onObject_modify (f : Object → Object) (o : Object) (b : ByteStorage) :
    (onObject (Exec.modify f)).run ⟨o, b⟩ = (.ok (), ⟨f o, b⟩) := rfl

theorem decodeBody_accounts {o : Object} {m : Message} {b : ByteStorage}
    (hsame : Same ⟨o, b⟩ ⟨m, b⟩) (hin : b.InRange) (hbooks : o.Books peak [] lost) {fuel : Nat}
    {answer : Except Fault Bool} {r : Reading}
    (hrun : (decodeBody (decodeFields layout malloc fuel)).run ⟨o, b⟩ = (answer, r))
    (hcaught : ∀ e, answer = .error e → e.IsException) :
    r.object.Accounts peak lost (inBody (fieldsSmall fuel) b.rest = true) := by
  have hget : (onBuffer Exec.get).run ⟨o, b⟩ = (.ok b, ⟨o, b⟩) := rfl
  rw [decodeBody, Exec.bind_ok hget, ByteStorage.remaining_eq hin] at hrun
  rw [inBody]
  split at hrun
  · next hsize =>
      rw [MsgHeader.size] at hsize
      have hchk : (onBuffer (ByteStorage.readScalar 1)).run ⟨o, b⟩ =
          (.ok (leNat (b.rest.take 1)), ⟨o, b.advanceRead 1⟩) :=
        onBuffer_ok (ByteStorage.readScalar_ok (by omega))
      have hcount : (onBuffer (ByteStorage.readScalar 4)).run ⟨o, b.advanceRead 1⟩ =
          (.ok (leNat ((b.rest.drop 1).take 4)), ⟨o, b.advanceRead 5⟩) :=
        onBuffer_ok (ByteStorage.readScalar_behind (by omega))
      rw [Exec.bind_ok hchk] at hrun
      split at hrun
      · next hflag =>
          cases hrun
          exact hbooks.accounts (by rw [decide_eq_true hflag, Bool.or_true, Bool.true_or])
      · next hflag =>
          rw [decide_eq_false hflag, decide_eq_false (by rw [MsgHeader.size]; omega),
            Bool.false_or, Bool.false_or]
          rw [Exec.bind_ok hcount] at hrun
          have hloop : Same ⟨o, b.advanceRead 5⟩ ⟨m, b.advanceRead 5⟩ :=
            ⟨hsame.msg, rfl, hsame.fit⟩
          cases hfields : (decodeFields layout malloc fuel (leNat ((b.rest.drop 1).take 4))).run
              ⟨o, b.advanceRead 5⟩ with
          | mk outcome r₁ =>
              have haccounts := decodeFields_accounts layout malloc hloop
                (hin.advanceRead (by omega)) hbooks hfields
              rw [ByteStorage.rest_advanceRead] at haccounts
              cases outcome with
              | ok a =>
                  rw [Exec.bind_ok hfields] at hrun
                  cases hrun
                  exact haccounts fun _ he => by cases he
              | error e =>
                  rw [Exec.bind_error hfields] at hrun
                  cases hrun
                  exact haccounts fun e' he' => hcaught e'
                      (congrArg Except.error (Except.error.inj he'))
  · next hsize =>
      cases hrun
      exact hbooks.accounts (by
        rw [decide_eq_true (Nat.le_of_not_lt hsize), Bool.true_or, Bool.true_or])

/-- A complete message whose subject is there, up to its body. -/
theorem decode_addressed {o : Object} {b : ByteStorage} {n : Nat} (hin : b.InRange)
    (h : frameStatus b.rest = (.complete, n))
    (hfits : MsgAddressing.size + subjectLengthAt b.rest ≤ b.rest.length) :
    (decode layout malloc).run ⟨o, b⟩ =
      (decodeBody (decodeFields layout malloc b.rest.length)).run
        ⟨{ msg := { o.msg with
            flags := flagsAt b.rest
            subject := Message.copyFront o.msg.subject (wireSubject b.rest) }
           memory := { o.memory with
            copies := o.memory.copies ++ [⟨.subject, subjectLengthAt b.rest⟩] } },
          b.advanceRead (MsgAddressing.size + subjectLengthAt b.rest)⟩ := by
  have haddr := addressingDetails_complete hin h
  have hlength : subjectLengthAt b.rest ≤ FixedArray.subject.size :=
    addressingDetails_subject b _ _ haddr _ rfl
  rw [decode, Exec.bind_ok (Exec.get_run _), Exec.bind_ok (onBuffer_ok haddr)]
  dsimp only
  rw [Exec.bind_ok (onObject_modify _ _ _), Exec.bind_ok (onBuffer_ok (copyFrom_subject hfits)),
    Exec.bind_ok (onMemory_ok (Memory.copyInto_ok .subject hlength _)),
      Exec.bind_ok (onObject_modify _ _ _)]
  rfl

/-- What `decode` loses. -/
theorem decode_accounts {o : Object} {b : ByteStorage} (hbooks : o.Books peak [] lost)
    (hfit : ∀ c ∈ o.memory.copies, c.Fits) {answer : Except Fault Bool} {r : Reading}
    (hrun : (decode layout malloc).run ⟨o, b⟩ = (answer, r))
    (hcaught : ∀ e, answer = .error e → e.IsException) :
    r.object.Accounts peak lost (messageSmall b.rest = true) := by
  by_cases hin : b.InRange
  · obtain ⟨status, n, hstatus⟩ : ∃ status n, frameStatus b.rest = (status, n) := ⟨_, _, rfl⟩
    rw [messageSmall, hstatus]
    cases status with
    | complete =>
        dsimp only
        by_cases hfits : MsgAddressing.size + subjectLengthAt b.rest ≤ b.rest.length
        · rw [decode_addressed layout malloc hin hstatus hfits] at hrun
          rw [decide_eq_false (Nat.not_lt.mpr hfits), Bool.false_or, ← ByteStorage.rest_advanceRead]
          refine decodeBody_accounts layout malloc ⟨rfl, rfl, ?_⟩ (hin.advanceRead hfits) ?_ hrun
            hcaught
          · exact fits_concat hfit (addressingDetails_subject b _ _
              (addressingDetails_complete hin hstatus) _ rfl)
          · exact ⟨hbooks.aligned, hbooks.arena⟩
        · have hcopy := copyFrom_overlong (size_le_of_complete hstatus).1 hfits
          rw [decode, Exec.bind_ok (Exec.get_run _),
            Exec.bind_ok (onBuffer_ok (addressingDetails_complete hin hstatus))] at hrun
          dsimp only at hrun
          rw [Exec.bind_ok (onObject_modify _ _ _), Exec.bind_error (onBuffer_error hcopy)] at hrun
          cases hrun
          obtain ⟨what, hfault⟩ := hcaught _ rfl
          cases hfault
    | corrupt =>
        rw [decode, Exec.bind_ok (Exec.get_run _),
          Exec.bind_ok (onBuffer_ok (addressingDetails_other hin hstatus (by decide)))] at hrun
        cases hrun
        exact hbooks.accounts rfl
    | incomplete =>
        rw [decode, Exec.bind_ok (Exec.get_run _),
          Exec.bind_ok (onBuffer_ok (addressingDetails_other hin hstatus (by decide)))] at hrun
        cases hrun
        exact hbooks.accounts rfl
  · have hrest : b.rest = [] := by
      rw [ByteStorage.InRange] at hin
      exact List.drop_eq_nil_of_le (by omega)
    rw [decode, Exec.bind_ok (Exec.get_run _)] at hrun
    rcases addressingDetails_outside hin with haddr | haddr
    · rw [Exec.bind_error (onBuffer_error haddr)] at hrun
      cases hrun
      obtain ⟨what, hfault⟩ := hcaught _ rfl
      cases hfault
    · rw [Exec.bind_ok (onBuffer_ok haddr)] at hrun
      cases hrun
      rw [hrest]
      exact hbooks.accounts (by decide)

end Reading

/-! ## Whole runs -/

namespace Object

/-- The step loses no block: what it adds is small, or what it decodes. -/
def Step.tidy : Step → Bool
  | .call c => c.field.all fun e => e.entry.small
  | .removeField .. => true
  | .decode buffer => messageSmall buffer.rest

/-- A message between two steps. -/
structure Stands (o : Object) (peak lost : Nat) : Prop where
  books : o.Books peak [] lost
  fit : ∀ c ∈ o.memory.copies, c.Fits

theorem of_settle {α : Type} {outcome : Except Fault α × Object} {o : Object}
    (h : settle outcome = some o) :
    o = outcome.2 ∧ ∀ e, outcome.1 = .error e → e.IsException := by
  obtain ⟨answer, o'⟩ := outcome
  cases answer with
  | ok a =>
      cases h
      exact ⟨rfl, fun _ he => by cases he⟩
  | error e =>
      cases e with
      | exception what =>
          cases h
          refine ⟨rfl, ?_⟩
          rintro _ ⟨⟩
          exact ⟨what, rfl⟩
      | _ => cases h

section Runs

variable (layout : Layout) (malloc : Malloc) {peak lost : Nat} {o o' : Object}

theorem call_accounts (h : o.Books peak [] lost) {c : MutableMessage.Call}
    (hstep : settle ((call layout malloc c).run o) = some o') :
    o'.Accounts (max peak o.msg.payload.length) lost ((Step.call c).tidy = true) := by
  obtain ⟨rfl, hcaught⟩ := of_settle hstep
  rw [call] at hcaught ⊢
  rw [Step.tidy]
  cases hfield : c.field with
  | none => exact h.clear.accounts rfl
  | some e =>
      have hmade := c.field_made e hfield
      rw [hfield] at hcaught
      dsimp only at hcaught ⊢
      rw [Option.all_some]
      obtain ⟨accepted, o', hrun, hbooks⟩ | ⟨fault, o', hrun, rfl⟩ :=
        add_triple layout malloc hmade o h
      · rw [Exec.bind_ok hrun]
        refine ⟨_, hbooks.peak_le (Nat.le_max_left _ _), ?_⟩
        rw [Nat.add_eq_zero_iff]
        exact and_congr_right fun _ => hmade.small_iff
      · rw [Exec.bind_error hrun] at hcaught
        obtain ⟨what, hfault⟩ := hcaught _ rfl
        cases hfault

/-- All that an outcome has copied has fitted, unless it is an overrun. -/
theorem call_fit (hfit : ∀ c ∈ o.memory.copies, c.Fits) {c : MutableMessage.Call}
    (hstep : settle ((call layout malloc c).run o) = some o') :
    ∀ c ∈ o'.memory.copies, c.Fits := by
  obtain ⟨rfl, hcaught⟩ := of_settle hstep
  obtain ⟨_, o', _, m, hrun, -, -, hsame⟩ | ⟨e, o', m, hrun, -, hstop⟩ :=
    call_alike layout malloc c o o.msg ⟨rfl, hfit⟩
  · rw [hrun]
    exact hsame.fit
  · rw [hrun] at hcaught ⊢
    obtain ⟨what, rfl⟩ := hcaught e rfl
    exact hstop.fit.mpr Fault.noConfusion

theorem decode_fit (hfit : ∀ c ∈ o.memory.copies, c.Fits) {b : ByteStorage}
    (hcaught : ∀ e, ((Reading.decode layout malloc).run ⟨o, b⟩).1 = .error e → e.IsException) :
    ∀ c ∈ ((Reading.decode layout malloc).run ⟨o, b⟩).2.object.memory.copies, c.Fits := by
  obtain ⟨_, r, _, s, hrun, -, -, hsame⟩ | ⟨e, r, s, hrun, -, hstop⟩ :=
    decode_alike layout malloc ⟨o, b⟩ ⟨o.msg, b⟩ ⟨rfl, rfl, hfit⟩
  · rw [hrun]
    exact hsame.fit
  · rw [hrun] at hcaught ⊢
    obtain ⟨what, rfl⟩ := hcaught e rfl
    exact hstop.fit.mpr Fault.noConfusion

/-- One step: what it loses. -/
theorem step_stands (h : o.Stands peak lost) {i : Step}
    (hstep : step layout malloc (some o) i = some o') :
    ∃ lost', o'.Stands (max peak o.msg.payload.length) lost' ∧
      (lost' = 0 ↔ lost = 0 ∧ i.tidy = true) := by
  rw [step, Option.bind_some] at hstep
  cases i with
  | call c =>
      obtain ⟨lost', hbooks, hlost⟩ := call_accounts layout malloc h.books hstep
      exact ⟨lost', ⟨hbooks, call_fit layout malloc h.fit hstep⟩, hlost⟩
  | removeField field freed =>
      obtain ⟨rfl, hcaught⟩ := of_settle hstep
      obtain ⟨a, o', hrun, hbooks, hcopies⟩ | ⟨o', hrun⟩ := removeField_books h.books field freed
      · rw [hrun]
        exact ⟨lost, ⟨hbooks, hcopies ▸ h.fit⟩, (and_iff_left rfl).symm⟩
      · rw [hrun] at hcaught
        obtain ⟨what, hfault⟩ := hcaught _ rfl
        cases hfault
  | decode b =>
      obtain ⟨rfl, hcaught⟩ := of_settle hstep
      obtain ⟨lost', hbooks, hlost⟩ := Reading.decode_accounts layout malloc
        h.books h.fit rfl hcaught
      exact ⟨lost', ⟨hbooks.peak_le (Nat.le_max_left _ _), decode_fit layout malloc h.fit hcaught⟩,
        hlost⟩

theorem after_none (steps : List Step) : after (step layout malloc) none steps = none := by
  induction steps with
  | nil => rfl
  | cons i steps ih => exact ih

/-- Between the steps of a run there are at most `n` fields. -/
def Within (n : Nat) (o : Option Object) : Prop := ∀ x ∈ o, x.msg.payload.length ≤ n

instance (n : Nat) (o : Option Object) : Decidable (Within n o) :=
  match o with
  | none => .isTrue fun x hx => absurd hx (Option.not_mem_none x)
  | some x => decidable_of_iff (x.msg.payload.length ≤ n)
      ⟨fun h _ => by rintro ⟨⟩; exact h, fun h => h x rfl⟩

/-- A whole run: something is lost exactly if some step loses something. -/
theorem run_stands {steps : List Step} (h : o.Stands peak lost)
    (hrun : after (step layout malloc) (some o) steps = some o') :
    ∃ peak' lost', o'.Stands peak' lost' ∧ (lost' = 0 ↔ lost = 0 ∧ ∀ i ∈ steps, i.tidy = true) ∧
      ∀ n, peak ≤ n → Always (step layout malloc) (Within n) (some o) steps → peak' ≤ n := by
  induction steps generalizing o peak lost with
  | nil =>
      cases hrun
      exact ⟨peak, lost, h, ⟨fun hnone => ⟨hnone, List.forall_mem_nil _⟩, And.left⟩,
        fun n hle _ => hle⟩
  | cons i steps ih =>
      cases hstep : step layout malloc (some o) i with
      | none =>
          rw [after, List.foldl_cons, hstep] at hrun
          rw [show List.foldl (step layout malloc) none steps = none from
            after_none layout malloc steps] at hrun
          cases hrun
      | some o₁ =>
          obtain ⟨lost₁, hstands, hlost⟩ := step_stands layout malloc h hstep
          rw [after, List.foldl_cons, hstep] at hrun
          obtain ⟨peak', lost', hstands', hlost', hpeak⟩ := ih hstands hrun
          refine ⟨peak', lost', hstands', ?_, fun n hle hwithin => ?_⟩
          · rw [hlost', hlost, List.forall_mem_cons, and_assoc]
          · obtain ⟨hfirst, hrest⟩ := hwithin
            rw [hstep] at hrest
            exact hpeak n (Nat.max_le.mpr ⟨hle, hfirst o rfl⟩) hrest

/-- After any run, `clear` leaves the arena clean exactly if each step was tidy; and as long as each
is, there are at most as many slabs as there ever were fields, and one, all of one size. -/
theorem clear_clean_iff (steps : List Step) (o : Object)
    (hrun : after (step layout malloc) (some (.new malloc)) steps = some o) :
    (o.clear.memory.arena.Clean ↔ ∀ i ∈ steps, i.tidy = true) ∧
      ((∀ i ∈ steps, i.tidy = true) → ∀ n,
        Always (step layout malloc) (Within n) (some (.new malloc)) steps →
          o.memory.arena.slabs.length ≤ n + 1 ∧ ∀ s ∈ o.memory.arena.slabs, s.size = 8192) := by
  have hnew : (new malloc).Stands 0 0 := ⟨books_new malloc, List.forall_mem_nil _⟩
  obtain ⟨peak, lost, hstands, hlost, hpeak⟩ := run_stands layout malloc hnew hrun
  refine ⟨?_, fun htidy n hwithin => ?_⟩
  · rw [hstands.books.clean_iff, hlost]
    exact and_iff_right rfl
  · obtain ⟨huniform, hslabs⟩ := hstands.books.arena.small (hlost.mpr ⟨rfl, htidy⟩)
    have hbefore := hpeak n (Nat.zero_le n) hwithin
    have hnow : o.msg.payload.length ≤ n := hwithin.last o hrun
    refine ⟨by omega, fun s hs => ?_⟩
    rw [huniform s hs, hstands.books.arena.first]

end Runs

/-- A field accepted, one rejected, one removed, a message decoded, and all of it again. -/
def reuse : List Step :=
  let use : List Step :=
    [.call (.addScalarField (.ofString "A") (.uint8 1)),
      .call (.addDataField (.ofString "A") [1, 2]),
      .removeField (some (.ofString "A")) 0, .decode (.ofBytes (Message.wire probe)), .call .clear]
  use ++ use

theorem reuse_clean :
    ∃ o, after (step .wide .bump) (some (.new .bump)) reuse = some o ∧
      o.clear.memory.arena.Clean ∧ o.memory.arena.slabs.length ≤ 2 := by
  have htidy : ∀ i ∈ reuse, i.tidy = true := by decide
  have hrun : after (step .wide .bump) (some (.new .bump)) reuse = some _ := rfl
  obtain ⟨hclean, hslabs⟩ := clear_clean_iff .wide .bump reuse _ hrun
  exact ⟨_, hrun, hclean.mpr htidy, (hslabs htidy 1 (by decide)).1⟩

/-- A scalar that declares more bytes than there are. -/
def cutShort : Bytes :=
  [1, 19, 0, 0, 0, 0, 0, 0, 0, 0, 0, 0, 0, 0, 1, 0, 0, 2, 1, 0, 0, 0, 4, 0, 9, 0, 0, 0]

/-- A value of 257 bytes is added, or `decode` throws over a field. -/
theorem leaky_not_clean :
    (∃ o, after (step .wide .bump) (some (.new .bump))
        [.call (.addDataField (.ofString "A") (List.replicate 257 7))] = some o ∧
      ¬ o.clear.memory.arena.Clean) ∧
    ∃ o, after (step .wide .bump) (some (.new .bump)) [.decode (.ofBytes cutShort)] = some o ∧
      ¬ o.clear.memory.arena.Clean := by
  have hfound {steps : List Step} (h : (after (step .wide .bump) (some (.new .bump)) steps).any
      (fun o => decide ¬ o.clear.memory.arena.Clean) = true) :
      ∃ o, after (step .wide .bump) (some (.new .bump)) steps = some o ∧
        ¬ o.clear.memory.arena.Clean := by
    obtain ⟨o, ho, hclean⟩ := (Option.any_eq_true _ _).mp h
    exact ⟨o, ho, of_decide_eq_true hclean⟩
  exact ⟨hfound (by decide +kernel), hfound (by decide +kernel)⟩

end Object

end Fastpath
