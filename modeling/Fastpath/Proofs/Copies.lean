import Fastpath.Proofs.Alike
import Fastpath.Proofs.Reach

/-!
# Copies into fixed arrays

Of what the decoder copies an identifier has a length of one byte, a subject one
of two, and a data field goes by the class for its size. What is left is the
scalar that declares more bytes than a scalar has. As long as one is to be read
from the buffer, its length stands there; and as long as anything is to be read
from behind the buffer, what stands there may be such a scalar.

A call that makes a field copies what is in the right class by itself, all but
the identifier, which may be too long for its array.
-/

namespace Fastpath

open Fastpath.Lib

/-! ## What the decoder copies -/

/-- A message that has its subject in the buffer, no scalar in it that is too long, and no field
behind it. -/
def MessageNarrow (r : Bytes) : Prop :=
  (frameStatus r).1 = .complete → SubjectFits r ∧
    bodyNarrow (fieldsNarrow r.length) (bodyAt r) = true ∧ (messageReach r).pending = 0

instance : DecidablePred MessageNarrow := fun r =>
  inferInstanceAs (Decidable ((frameStatus r).1 = .complete → SubjectFits r ∧
    bodyNarrow (fieldsNarrow r.length) (bodyAt r) = true ∧ (messageReach r).pending = 0))

namespace Exposed

/-- Every copy so far has fitted. -/
def AllFit (s : Exposed) : Prop := ∀ c ∈ s.copies, c.Fits

theorem AllFit.noted {s : Exposed} (h : AllFit s) {array : FixedArray} {length : Nat}
    (hfits : length ≤ array.size) : AllFit (s.noted array length) := by
  intro c hc
  obtain hc | hc := List.mem_append.mp hc
  · exact h c hc
  · rw [List.mem_singleton.mp hc]
    exact hfits

/-- A reader that copies nothing but what fits. -/
def Fitting {α : Type} (x : Exec Fault Exposed α) : Prop :=
  Exec.Triple AllFit x (fun _ => AllFit) fun _ => AllFit

theorem Fitting.of_keeps {α : Type} {x : Exec Fault Exposed α} (h : Keeps AllFit x) : Fitting x :=
  h.mono (fun _ => id) (fun _ _ => id) fun _ _ => And.right

theorem Fitting.run {α : Type} {x : Exec Fault Exposed α} (h : Fitting x) {s : Exposed}
    (hs : AllFit s) : AllFit (x.run s).2 := by
  obtain ⟨_, s', hrun, hs'⟩ | ⟨_, s', hrun, hs'⟩ := h s hs
  · rwa [hrun]
  · rwa [hrun]

theorem fitting_advanceRead (n : Nat) : Fitting (Exec.modify (Exposed.advanceRead n)) :=
  .modify fun _ => id

theorem fitting_readScalar (w : Nat) : Fitting (readScalar w) :=
  (Fitting.of_keeps (keeps_peekScalar 0 w)).bind fun _ => (fitting_advanceRead w).bind fun _ =>
    .pure fun _ => id

/-- One byte, or the end of the memory. -/
theorem readScalar_byte : Exec.Triple AllFit (readScalar 1) (fun v s => v < 256 ∧ AllFit s)
    fun _ => AllFit := by
  intro s hs
  obtain ⟨v, s', hrun, hs'⟩ | ⟨e, s', hrun, hs'⟩ := fitting_readScalar 1 s hs
  · refine .inl ⟨v, s', hrun, ?_, hs'⟩
    obtain ⟨_, _, hpeek, hrest⟩ := Exec.of_bind_ok hrun
    obtain ⟨raw, _, hraw, hvalue⟩ := Exec.of_bind_ok hpeek
    cases hrest
    cases hvalue
    simp only [peekBytes] at hraw
    split at hraw
    · cases hraw
      exact (leNat_lt _).trans_le (Nat.pow_le_pow_right (by decide) (List.length_take_le _ _))
    · cases hraw
  · exact .inr ⟨e, s', hrun, hs'⟩

/-- An identifier on the wire has its length in one byte. -/
theorem fitting_readFieldHeader : Fitting readFieldHeader := by
  refine (Fitting.of_keeps keeps_view).bind fun buffer => ?_
  split
  · refine (fitting_readScalar 1).bind fun _ => readScalar_byte.bind fun length s hs => ?_
    obtain ⟨hbyte, hs⟩ := hs
    revert s
    refine (fitting_readScalar 4).bind fun _ => (Fitting.of_keeps keeps_view).bind fun _ => ?_
    split
    · refine (Fitting.of_keeps (keeps_peekBytes _ _)).bind fun _ => Exec.Triple.bind
        (Q := fun _ => AllFit) (.modify fun s hs => AllFit.noted hs hbyte) fun _ =>
        (fitting_advanceRead _).bind fun _ => (Fitting.of_keeps keeps_view).bind fun _ => ?_
      split
      · exact .pure fun _ => id
      · exact .throw fun _ => id
    · exact .throw fun _ => id
  · exact .throw fun _ => id

theorem fitting_createDateTimeField : Fitting createDateTimeField :=
  fitting_readFieldHeader.bind fun _ => (fitting_readScalar 8).bind fun _ =>
    (fitting_readScalar 8).bind fun _ => .pure fun _ => id

theorem AllFit.behindHeader {s : Exposed} (h : AllFit s) : AllFit s.behindHeader := by
  refine AllFit.noted (s := s.advanceRead (headerLength s.unread)) h ?_
  exact (leNat_lt _).trans_le (Nat.pow_le_pow_right (by decide) (List.length_take_le _ _))

/-! ## Along the walk -/

section Walk

variable {α β : Type}

/-- What a run copies, next to what the walk says: all of it fits if no scalar on the way is too
long and the way ends with the buffer, and something does not if a scalar is. -/
structure CopiesBy (x : Exec Fault Decoding α) (s : Decoding) (reach : Reach) (narrow : Bool) :
    Prop where
  fit : narrow = true → reach.pending = 0 → AllFit s.source → AllFit (x.run s).2.source
  wide : narrow = false → ∃ c ∈ (x.run s).2.source.copies, ¬ c.Fits

/-- What is left as it is. -/
theorem CopiesBy.of_fits {x : Exec Fault Decoding α} {s : Decoding} (reach : Reach)
    (h : AllFit s.source → AllFit (x.run s).2.source) : CopiesBy x s reach true :=
  ⟨fun _ _ => h, Bool.noConfusion⟩

theorem CopiesBy.of_run_eq {x y : Exec Fault Decoding α} {s : Decoding} {reach : Reach}
    {narrow : Bool} (h : CopiesBy y s reach narrow) (hrun : x.run s = y.run s) :
    CopiesBy x s reach narrow where
  fit hnarrow hnone hs := hrun ▸ h.fit hnarrow hnone hs
  wide hwide := hrun ▸ h.wide hwide

/-- Behind a step that copies what fits. -/
theorem CopiesBy.behind {x : Exec Fault Decoding α} {y : Exec Fault Decoding β} {s s₁ : Decoding}
    {reach reach' : Reach} {narrow : Bool} (h : CopiesBy x s₁ reach narrow)
    (hpending : reach'.pending = 0 → reach.pending = 0)
    (hfit : AllFit s.source → AllFit s₁.source)
    (hrun : (y.run s).2.source = (x.run s₁).2.source) : CopiesBy y s reach' narrow where
  fit hnarrow hnone hs := by
    rw [hrun]
    exact h.fit hnarrow (hpending hnone) (hfit hs)
  wide hwide := by
    rw [hrun]
    exact h.wide hwide

theorem onSource_source (x : Exec Fault Exposed α) (s : Decoding) :
    ((onSource x).run s).2.source = (x.run s.source).2 := by
  cases hrun : x.run s.source with
  | mk answer source =>
      cases answer with
      | ok a => rw [onSource_ok hrun]
      | error e => rw [onSource_error hrun]

theorem onFresh_source (x : Exec Fault Decoding α) (s : Decoding) :
    ((onFresh x).run s).2.source = (x.run ⟨Message.new, s.source⟩).2.source := by
  cases hrun : x.run ⟨Message.new, s.source⟩ with
  | mk answer sub => cases answer <;> simp only [onFresh, hrun]

theorem bind_pure_source (x : Exec Fault Decoding α) (f : α → β) (s : Decoding) :
    ((x >>= fun a => pure (f a)).run s).2 = (x.run s).2 := by
  cases hrun : x.run s with
  | mk answer s' =>
      cases answer with
      | ok a =>
          rw [Exec.bind_ok hrun]
          rfl
      | error e => rw [Exec.bind_error hrun]

theorem pending_behind (n count : Nat) (more : Nat → Reach) :
    ((Reach.within n).followed count more).pending = (more n).pending := by
  rw [Reach.followed]
  cases more n <;> rfl

variable {s : Decoding}

theorem decodeField_copies {body : Exec Fault Decoding Bool} {reach : Bytes → Reach}
    {narrow : Bytes → Bool} (hin : s.source.view.InRange)
    (hbody : FieldFits s.source.view.rest → CopiesBy body ⟨Message.new, s.source.behindHeader⟩
      (reach (s.source.view.rest.drop (headerLength s.source.view.rest)))
      (narrow (s.source.view.rest.drop (headerLength s.source.view.rest)))) :
    CopiesBy (decodeField body) s (fieldReach reach s.source.view.rest)
      (fieldNarrow narrow s.source.view.rest) := by
  by_cases hfit : FieldFits s.source.view.rest
  · have hheader := readFieldHeader_inside hin hfit
    have hpeek := onSource_ok (s := s) (peekFieldHeader_inside hin hfit)
    have hbody := hbody hfit
    obtain ⟨scalar, hscalar⟩ := createScalarField_inside hin hfit
    obtain ⟨data, hdata⟩ := createDataField_inside hin hfit
    rw [FieldFits] at hfit
    rw [decodeField, fieldNarrow, fieldReach, if_neg (Nat.not_lt.mpr hfit),
      if_neg (Nat.not_lt.mpr hfit)]
    have hscalar : ∀ reach, CopiesBy (onSource createScalarField) s reach
        (decide (dataLengthAt s.source.view.rest ≤ Field.rawSize)) := by
      refine fun reach => ⟨fun hnarrow _ hs => ?_, fun hwide => ?_⟩
      · rw [onSource_source, hscalar]
        exact AllFit.noted hs.behindHeader
            (show _ ≤ FixedArray.raw.size from of_decide_eq_true hnarrow)
      · rw [onSource_source, hscalar]
        exact ⟨⟨.raw, _⟩, List.mem_append_right _ List.mem_cons_self, of_decide_eq_false hwide⟩
    have hdatafield : ∀ reach,
        CopiesBy (onSource (createDataField (dataLengthAt s.source.view.rest))) s reach true := by
      refine fun reach => .of_fits _ fun hs => ?_
      rw [onSource_source, hdata]
      by_cases hsmall : dataLengthAt s.source.view.rest ≤ Field.smallDataMax
      · rw [if_pos hsmall]
        exact AllFit.noted hs.behindHeader (show _ ≤ FixedArray.storage.size from hsmall)
      · rw [if_neg hsmall]
        exact hs.behindHeader
    have htime : ∀ reach, CopiesBy (onSource createDateTimeField) s reach true := by
      refine fun reach => .of_fits _ fun hs => ?_
      rw [onSource_source]
      exact fitting_createDateTimeField.run hs
    have hmessage : CopiesBy (createMessageField body) s
        ((Reach.within (headerLength s.source.view.rest)).followed 0 fun n =>
          reach (s.source.view.rest.drop n))
        (narrow (s.source.view.rest.drop (headerLength s.source.view.rest))) := by
      refine hbody.behind (fun hnone => by rwa [pending_behind] at hnone) AllFit.behindHeader ?_
      rw [createMessageField, Exec.bind_ok (onSource_ok hheader), bind_pure_source, onFresh_source]
    refine CopiesBy.of_run_eq ?_ (Exec.bind_ok hpeek)
    dsimp only
    generalize typeAt s.source.view.rest = type
    cases type with
    | string | data => exact hdatafield _
    | dateTime => exact htime _
    | message => exact hmessage
    | _ => exact hscalar _
  · rw [fieldNarrow, fieldReach, if_pos (Nat.lt_of_not_le hfit), if_pos (Nat.lt_of_not_le hfit)]
    obtain ⟨e, s', hrun, hsource⟩ := decodeField_refused body hin hfit
    refine .of_fits _ fun hs => ?_
    rw [hrun]
    obtain hsame | hheader := hsource
    · rwa [hsame]
    · rw [hheader]
      exact fitting_readFieldHeader.run hs

theorem decodeBody_copies {fields : Nat → Exec Fault Decoding Unit} {reach : Nat → Bytes → Reach}
    {narrow : Nat → Bytes → Bool} (hin : s.source.view.InRange)
    (hfields : MsgHeader.size < s.source.view.rest.length →
      CopiesBy (fields (fieldCountAt s.source.view.rest))
        ⟨s.msg, s.source.advanceRead MsgHeader.size⟩
        (reach (fieldCountAt s.source.view.rest) (s.source.view.rest.drop MsgHeader.size))
        (narrow (fieldCountAt s.source.view.rest) (s.source.view.rest.drop MsgHeader.size))) :
    CopiesBy (decodeBody fields) s (bodyReach reach s.source.view.rest)
      (bodyNarrow narrow s.source.view.rest) := by
  rw [bodyReach, bodyNarrow]
  by_cases hsize : s.source.view.rest.length ≤ MsgHeader.size
  · rw [decide_eq_true hsize]
    refine .of_fits _ fun hs => ?_
    rwa [decodeBody_absent hin hsize]
  · have hbehind := Nat.lt_of_not_le hsize
    rw [if_neg hsize, decide_eq_false hsize, Bool.false_or]
    by_cases hflag : leNat (s.source.view.rest.take 1) ≠ bodyFlag
    · rw [decide_eq_true hflag]
      refine .of_fits _ fun hs => ?_
      rw [decodeBody_corrupt hin hbehind hflag]
      exact hs
    · rw [if_neg hflag, decide_eq_false hflag, Bool.false_or]
      refine (hfields hbehind).behind (fun hnone => by rwa [pending_behind] at hnone) id ?_
      rw [decodeBody_counted hin hbehind hflag]
      exact congrArg Decoding.source (bind_pure_source _ _ _)

/-- The body of a field is read by a loop on fewer bytes. -/
theorem decodeField_loop_copies {fuel room : Nat}
    (hloop : ∀ (room count : Nat) (s : Decoding), s.source.view.InRange →
      s.source.view.rest.length ≤ fuel → s.source.unread.length ≤ room →
      CopiesBy (decodeFields room count) s (fieldsReach fuel count s.source.view.rest)
        (fieldsNarrow fuel count s.source.view.rest))
    (hin : s.source.view.InRange) (hfuel : s.source.view.rest.length ≤ fuel + 1)
    (hroom : s.source.unread.length ≤ room + 1) :
    CopiesBy (decodeField (decodeBody (decodeFields room))) s
      (fieldReach (bodyReach (fieldsReach fuel)) s.source.view.rest)
      (fieldNarrow (bodyNarrow (fieldsNarrow fuel)) s.source.view.rest) := by
  refine decodeField_copies hin fun hfit => ?_
  have hlength := headerLength_inside hin hfit.size_le
  have hstep := stepped_behindHeader s.source
  rw [hlength] at hstep
  have hheader : 6 ≤ headerLength s.source.view.rest := Nat.le_add_right _ _
  rw [FieldFits] at hfit
  have hin' := hstep.inRange hin (by omega)
  rw [← hstep.rest]
  refine decodeBody_copies hin' fun hlong => ?_
  have hstep' := Stepped.advanceRead s.source.behindHeader MsgHeader.size
  have hfields := hloop room (fieldCountAt s.source.behindHeader.view.rest)
    ⟨Message.new, s.source.behindHeader.advanceRead MsgHeader.size⟩ (hstep'.inRange hin' hlong.le)
    (by
      dsimp only
      rw [(hstep.trans hstep').rest, List.length_drop]
      omega)
    (by
      dsimp only
      rw [(hstep.trans hstep').unread, List.length_drop]
      omega)
  dsimp only at hfields
  rwa [hstep'.rest] at hfields

/-- A field that is refused ends the loop with what its header copies. -/
theorem decodeFields_refused_fit {room count : Nat} (hin : s.source.view.InRange)
    (hshort : ¬ FieldFits s.source.view.rest) (hs : AllFit s.source) :
    AllFit ((decodeFields room (count + 1)).run s).2.source := by
  cases room with
  | zero => exact hs
  | succ room =>
      obtain ⟨e, s', hrun, hsource⟩ :=
        decodeField_refused (decodeBody (decodeFields room)) hin hshort
      rw [decodeFields, Exec.bind_error hrun]
      obtain hsame | hheader := hsource
      · exact hsame ▸ hs
      · exact hheader ▸ fitting_readFieldHeader.run hs

/-- A field, and the fields behind it. Where the field does not end inside the view there is
nothing more to be said of them. -/
theorem CopiesBy.followed {x : Exec Fault Decoding Field} {reach : Reach} {narrow rest : Bool}
    {more : Nat → Reach} {room count : Nat} (hfield : CopiesBy x s reach narrow)
    (hreaches : Reaches x s reach)
    (hmore : ∀ n, reach = .within n → ∀ field s₁, n ≤ s.source.view.rest.length →
      Stepped s.source n s₁.source →
      CopiesBy (decodeFields room count) (push field s₁) (more n) rest)
    (hlast : (∀ n, reach ≠ .within n) → rest = true) :
    CopiesBy (do
      let field ← x
      Exec.modify (push field)
      decodeFields room count) s (reach.followed count more) (narrow && rest) := by
  cases reach with
  | within n =>
      obtain ⟨hn, field, s₁, hrun, hstep⟩ := hreaches
      have hbehind := hmore n rfl field s₁ hn hstep
      refine ⟨fun hnarrow hnone hs => ?_, fun hwide => ?_⟩
      · obtain ⟨hnarrow, hnext⟩ := Bool.and_eq_true_iff.mp hnarrow
        rw [pending_behind] at hnone
        have hs₁ := hfield.fit hnarrow rfl hs
        rw [hrun] at hs₁
        rw [loop_run hrun]
        exact hbehind.fit hnext hnone hs₁
      · obtain hwide | hwide := Bool.and_eq_false_iff.mp hwide
        · exact wide_loop (hfield.wide hwide)
        · rw [loop_run hrun]
          exact hbehind.wide hwide
  | refused =>
      obtain ⟨e, s', hrun⟩ := hreaches
      rw [hlast fun _ => Reach.noConfusion, Bool.and_true]
      refine hfield.behind (fun _ => rfl) id ?_
      rw [Exec.bind_error hrun, hrun]
  | past excess pending =>
      rw [hlast fun _ => Reach.noConfusion, Bool.and_true]
      refine ⟨fun hnarrow hnone hs => ?_, fun hwide => wide_loop (hfield.wide hwide)⟩
      -- nothing is left to be read from behind the end
      obtain ⟨hpending, rfl⟩ : pending = 0 ∧ count = 0 := Nat.add_eq_zero_iff.mp hnone
      have hs₁ := hfield.fit hnarrow hpending hs
      cases hrun : x.run s with
      | mk answer s₁ =>
          rw [hrun] at hs₁
          cases answer with
          | ok field =>
              rw [loop_run hrun, decodeFields.eq_def]
              exact hs₁
          | error e =>
              rw [Exec.bind_error hrun]
              exact hs₁

theorem decodeFields_copies (fuel : Nat) : ∀ (room count : Nat) (s : Decoding),
    s.source.view.InRange → s.source.view.rest.length ≤ fuel → s.source.unread.length ≤ room →
    CopiesBy (decodeFields room count) s (fieldsReach fuel count s.source.view.rest)
      (fieldsNarrow fuel count s.source.view.rest) := by
  induction fuel with
  | zero =>
      intro room count s hin hfuel hroom
      have hnarrow : fieldsNarrow 0 count s.source.view.rest = true := by cases count <;> rfl
      rw [hnarrow]
      refine .of_fits _ fun hs => ?_
      cases count with
      | zero =>
          rw [decodeFields.eq_def]
          exact hs
      | succ count =>
          refine decodeFields_refused_fit hin (fun hfit => ?_) hs
          have hsize := hfit.size_le
          rw [MsgField.size] at hsize
          omega
  | succ fuel ih =>
      intro room count s hin hfuel hroom
      cases count with
      | zero =>
          refine .of_fits _ fun hs => ?_
          rw [decodeFields.eq_def]
          exact hs
      | succ count =>
          rw [fieldsReach, fieldsNarrow]
          by_cases hfit : FieldFits s.source.view.rest
          · have hsize := hfit.size_le
            have hmem := rest_le_unread hin
            rw [MsgField.size] at hsize
            obtain ⟨room, rfl⟩ : ∃ room', room = room' + 1 := ⟨room - 1, by omega⟩
            rw [decodeFields]
            refine (decodeField_loop_copies ih hin hfuel hroom).followed
              (decodeField_loops (decodeFields_reaches fuel) hin hfuel hroom) ?_ ?_
            · intro n hreach field s₁ hn hstep
              have hleast := fieldReach_size hreach
              rw [MsgField.size] at hleast
              have hmore := ih room count (push field s₁) (hstep.inRange hin hn)
                (by
                  change s₁.source.view.rest.length ≤ fuel
                  rw [hstep.rest, List.length_drop]
                  omega)
                (by
                  change s₁.source.unread.length ≤ room
                  rw [hstep.unread, List.length_drop]
                  omega)
              change CopiesBy _ _ (fieldsReach fuel count s₁.source.view.rest)
                (fieldsNarrow fuel count s₁.source.view.rest) at hmore
              rw [hstep.rest] at hmore
              rw [hreach]
              exact hmore
            · intro hends
              cases hreach : fieldReach (bodyReach (fieldsReach fuel)) s.source.view.rest with
              | within n => exact absurd hreach (hends n)
              | refused | past => rfl
          · rw [fieldReach, fieldNarrow, if_pos (Nat.lt_of_not_le hfit),
              if_pos (Nat.lt_of_not_le hfit)]
            exact .of_fits _ (decodeFields_refused_fit hin hfit)

end Walk

/-! ## Messages -/

section Message

variable {d : Decoding} {n : Nat}

theorem decode_copies (hin : d.source.view.InRange)
    (h : frameStatus d.source.view.rest = (.complete, n))
    (hsubject : SubjectFits d.source.view.rest) :
    CopiesBy decode d (messageReach d.source.view.rest)
      (bodyNarrow (fieldsNarrow d.source.view.rest.length) (bodyAt d.source.view.rest)) := by
  obtain ⟨hin', hrest, hrun⟩ := decode_addressed hin h hsubject
  have hstep := stepped_addressed d
  have hbody : CopiesBy (decodeBody (decodeFields d.source.unread.length)) (addressed d)
      (bodyReach (fieldsReach d.source.view.rest.length) (addressed d).source.view.rest)
      (bodyNarrow (fieldsNarrow d.source.view.rest.length) (addressed d).source.view.rest) := by
    refine decodeBody_copies hin' fun hlong => ?_
    have hstep' := Stepped.advanceRead (addressed d).source MsgHeader.size
    have hloop := decodeFields_copies d.source.view.rest.length d.source.unread.length
      (fieldCountAt (addressed d).source.view.rest)
      ⟨(addressed d).msg, (addressed d).source.advanceRead MsgHeader.size⟩
      (hstep'.inRange hin' hlong.le)
      (by
        dsimp only
        rw [(hstep.trans hstep').rest, List.length_drop]
        omega)
      (by
        dsimp only
        rw [(hstep.trans hstep').unread, List.length_drop]
        omega)
    dsimp only at hloop
    rwa [hstep'.rest] at hloop
  rw [hrest] at hbody
  refine hbody.behind (fun hnone => by rwa [messageReach, pending_behind] at hnone) (fun hs => ?_)
    (by rw [hrun])
  -- a subject has its length in two bytes
  refine AllFit.noted (s := d.source.advanceRead _) hs ?_
  have hlength : subjectLengthAt d.source.view.rest < 256 ^ 2 :=
    (leNat_lt _).trans_le (Nat.pow_le_pow_right (by decide) (List.length_take_le _ _))
  exact Nat.le_of_lt_succ hlength

/-- Whatever is in memory behind the buffer, the decoder copies nothing that does not fit, if and
only if the buffer has all there is to be read, and no scalar that is too long. -/
theorem decode_fits_iff {view : ByteStorage} (hin : view.InRange) (target : Message) :
    (∀ behind, AllFit (decode.run ⟨target, ⟨view, behind, []⟩⟩).2.source) ↔
      MessageNarrow view.rest := by
  obtain ⟨status, n, hstatus⟩ : ∃ status n, frameStatus view.rest = (status, n) := ⟨_, _, rfl⟩
  cases status with
  | incomplete =>
      refine iff_of_true (fun behind => ?_) fun hcomplete => ?_
      · rw [decode_incomplete (d := ⟨target, ⟨view, behind, []⟩⟩) hin hstatus]
        exact List.forall_mem_nil _
      · rw [hstatus] at hcomplete
        cases hcomplete
  | corrupt =>
      refine iff_of_true (fun behind => ?_) fun hcomplete => ?_
      · rw [decode_corrupt (d := ⟨target, ⟨view, behind, []⟩⟩) hin hstatus]
        exact List.forall_mem_nil _
      · rw [hstatus] at hcomplete
        cases hcomplete
  | complete =>
      have hcomplete : (frameStatus view.rest).1 = .complete := congrArg Prod.fst hstatus
      refine ⟨fun h _ => ?_, fun h behind => ?_⟩
      · have hsubject : SubjectFits view.rest := by
          by_contra hlong
          obtain ⟨front, hfront⟩ : ∃ front : Bytes, view.rest.length + front.length =
              MsgAddressing.size + subjectLengthAt view.rest := by
            rw [SubjectFits] at hlong
            refine ⟨List.replicate (MsgAddressing.size + subjectLengthAt view.rest -
              view.rest.length) 0, ?_⟩
            rw [List.length_replicate]
            omega
          obtain ⟨d', hrun, hnoted⟩ := decode_followUp
            (d := ⟨target, ⟨view, followUp front 1, []⟩⟩) hin hstatus hlong hfront rfl
            (by decide : 1 < 2 ^ 32)
          obtain ⟨c, hc, hbad⟩ := hnoted Nat.one_pos
          have hall := h (followUp front 1)
          rw [hrun] at hall
          exact hbad (hall c hc)
        refine ⟨hsubject, ?_, ?_⟩
        · by_contra hnarrow
          have hcopies := decode_copies (d := ⟨target, ⟨view, [], []⟩⟩) hin hstatus hsubject
          obtain ⟨c, hc, hbad⟩ := hcopies.wide (Bool.eq_false_iff.mpr hnarrow)
          exact hbad (h [] c hc)
        · cases hreach : messageReach view.rest with
          | within k => rfl
          | refused => rfl
          | past excess pending =>
              by_contra hpending
              obtain ⟨hover, -⟩ := messageReach_past hreach
              have hreaches := decode_reaches
                (d := ⟨target, ⟨view, List.replicate excess 0 ++ (fillerField ++ []), []⟩⟩)
                hin hstatus hsubject
              dsimp only at hreaches
              rw [hreach] at hreaches
              obtain ⟨c, hc, hbad⟩ := hreaches.noted (Nat.pos_of_ne_zero hpending)
                (List.replicate excess 0) [] List.length_replicate rfl (by omega)
              exact hbad (h _ c hc)
      · obtain ⟨hsubject, hnarrow, hnone⟩ := h hcomplete
        exact (decode_copies (d := ⟨target, ⟨view, behind, []⟩⟩) hin hstatus hsubject).fit hnarrow
          hnone (List.forall_mem_nil _)

end Message

end Exposed

/-! ## Calls -/

/-- The value has room in the class of the field. -/
def Field.Sized : Field → Prop
  | .scalar _ _ data => data.length ≤ Field.rawSize
  | .smallData _ _ value => value.length ≤ Field.smallDataMax
  | .dateTime .. | .largeData .. | .message .. => True

theorem Field.createData_sized (identifier : CString) (type : StorageType) (value : Bytes) :
    (Field.createData identifier type value).Sized := by
  rw [Field.createData]
  split
  · next hsmall => exact hsmall
  · trivial

theorem MutableMessage.Call.field_sized (c : MutableMessage.Call) : ∀ e ∈ c.field, e.Sized := by
  cases c with
  | addScalarField field value =>
      rintro _ ⟨⟩
      show value.raw.length ≤ Field.rawSize
      cases value <;> simp only [Scalar.raw, leBytes_length, Field.rawSize] <;> omega
  | addStringField field value =>
      rintro _ ⟨⟩
      exact Field.createData_sized _ _ _
  | addDataField field value =>
      rintro _ ⟨⟩
      exact Field.createData_sized _ _ _
  | clear => exact fun e he => absurd he (Option.not_mem_none e)
  | _ =>
      rintro _ ⟨⟩
      trivial

/-- The message is the same, and every copy so far has fitted. -/
structure SameObject (o : Object) (m : Message) : Prop where
  msg : o.msg = m
  fit : ∀ c ∈ o.memory.copies, c.Fits

structure StoppedObject (e : Fault) (o : Object) (m : Message) : Prop where
  msg : o.msg = m
  fit : (∀ c ∈ o.memory.copies, c.Fits) ↔ e ≠ .overrun

section Calls

variable (layout : Layout) (malloc : Malloc)

/-- A constructor called by `add*` copies what fits, if the identifier does. -/
theorem constructField_ok {e : Field} (hsized : e.Sized)
    (hid : e.identifier.length < Field.identifierSize) (m : Memory) :
    ∃ m', (Memory.constructField malloc e).run m = (.ok (), m') ∧
      ((∀ c ∈ m.copies, c.Fits) → ∀ c ∈ m'.copies, c.Fits) := by
  have hfirst := Memory.copyInto_ok .identifier hid m
  rw [Memory.constructField.eq_def, Exec.bind_ok hfirst]
  cases e with
  | scalar identifier type data =>
      exact ⟨_, Memory.copyInto_ok .raw hsized _, fun h => fits_concat (fits_concat h hid) hsized⟩
  | smallData identifier type value =>
      exact ⟨_, Memory.copyInto_ok .storage hsized _,
        fun h => fits_concat (fits_concat h hid) hsized⟩
  | largeData identifier type value =>
      obtain ⟨_, m', hrun, hcopies⟩ := Memory.quiet_fillStorage malloc
        (if type = .string then 512 else value.length) value.length
        { m with copies := m.copies ++ [⟨.identifier, identifier.length + 1⟩] }
      exact ⟨m', hrun, fun h => hcopies ▸ fits_concat h hid⟩
  | dateTime identifier dataLength seconds microseconds =>
      exact ⟨_, rfl, fun h => fits_concat h hid⟩
  | message identifier msg => exact ⟨_, rfl, fun h => fits_concat h hid⟩

theorem Object.onMemory_ok {α : Type} {x : Exec Fault Memory α} {o : Object} {a : α} {m : Memory}
    (h : x.run o.memory = (.ok a, m)) :
    (Object.onMemory x).run o = (.ok a, { o with memory := m }) := by
  simp only [onMemory, Exec.zoom, h]

theorem Object.onMemory_error {α : Type} {x : Exec Fault Memory α} {o : Object} {e : Fault}
    {m : Memory} (h : x.run o.memory = (.error e, m)) :
    (Object.onMemory x).run o = (.error e, { o with memory := m }) := by
  simp only [onMemory, Exec.zoom, h]

theorem add_alike {e : Field} (hsized : e.Sized) :
    Exec.Relates SameObject StoppedObject Eq (Object.add layout malloc e)
      (MutableMessage.add e) := by
  refine .bind_left (fun o m h => ?_) fun block => .bind (A := Eq) ?_ fun _ _ _ => ?_
  · exact ⟨_, _, rfl, h.msg, h.fit⟩
  · -- the constructor copies the identifier first
    intro o m h
    by_cases hid : e.identifier.length < Field.identifierSize
    · obtain ⟨memory, hrun, hfit⟩ := constructField_ok malloc hsized hid o.memory
      rw [Field.copyIdentifier, if_pos hid]
      exact .inl ⟨(), _, (), m, Object.onMemory_ok hrun, rfl, rfl, h.msg, hfit h.fit⟩
    · have hlong : ¬ e.identifier.length + 1 ≤ FixedArray.identifier.size := hid
      have hrun : (Memory.constructField malloc e).run o.memory = (.error .overrun, _) :=
        Exec.bind_error (Memory.copyInto_error .identifier hlong o.memory)
      rw [Field.copyIdentifier, if_neg hid]
      refine .inr ⟨.overrun, _, m, Object.onMemory_error hrun, rfl, h.msg, fun hall => ?_,
        fun hne => absurd rfl hne⟩
      exact absurd (hall _ (List.mem_append_right _ List.mem_cons_self)) hlong
  · intro o _ h
    obtain ⟨rfl, hfit⟩ := h
    rw [Exec.bind_ok (Exec.get_run o)]
    cases hadd : MutableMessage.addField e o.msg with
    | mk msg accepted =>
        cases accepted with
        | true => exact .inl ⟨true, _, true, msg, rfl, by simp only [hadd], rfl, rfl, hfit⟩
        | false => exact .inl ⟨false, _, false, msg, rfl, by simp only [hadd], rfl, rfl, hfit⟩

theorem MutableMessage.Call.run_eq (c : MutableMessage.Call) :
    c.run = (match c.field with
      | some e => do
          let accepted ← MutableMessage.add e
          pure (some accepted)
      | none => do
          Exec.modify Message.clear
          pure none) := by
  cases c <;> rfl

/-- The call with its memory does what the call does. -/
theorem call_alike (c : MutableMessage.Call) :
    Exec.Relates SameObject StoppedObject Eq (Object.call layout malloc c) c.run := by
  rw [Object.call, c.run_eq]
  cases hfield : c.field with
  | some e =>
      refine (add_alike layout malloc (c.field_sized e hfield)).bind ?_
      rintro accepted _ rfl
      exact .pure rfl
  | none =>
      refine (Exec.Relates.modify fun o m h => ?_).bind fun _ _ _ => .pure rfl
      exact ⟨congrArg Message.clear h.msg, h.fit⟩

theorem call_overrun (c : MutableMessage.Call) (m : Message) :
    (c.run.run m).1 = .error .overrun ↔
      ∃ e ∈ c.field, ¬ e.identifier.length < Field.identifierSize := by
  rw [c.run_eq]
  cases c.field with
  | none =>
      exact iff_of_false (fun h => by cases h) fun ⟨_, he, _⟩ =>
        absurd he (Option.not_mem_none _)
  | some e =>
      refine (Exec.bind_stops_iff fun _ _ h => by cases h).trans ?_
      rw [MutableMessage.add]
      refine (Exec.bind_stops_iff fun _ _ h => by cases h).trans ?_
      rw [Field.copyIdentifier]
      split
      · next hid => exact iff_of_false (fun h => by cases h) fun ⟨_, rfl, hlong⟩ => hlong hid
      · next hlong => exact iff_of_true rfl ⟨e, rfl, hlong⟩

/-- The constructor that is overrun has copied all of the identifier. -/
theorem copiesOfCall_long {c : MutableMessage.Call} {e : Field} (hfield : c.field = some e)
    (hlong : ¬ e.identifier.length < Field.identifierSize) (o : Object) :
    ∃ copy ∈ o.copiesOfCall layout malloc c, ¬ copy.Fits := by
  have hadd : (Object.add layout malloc e).run
      { o with memory := { o.memory with copies := [] } } = (.error .overrun, _) :=
    (Exec.bind_ok (Object.onMemory_ok rfl)).trans (Exec.bind_error (Object.onMemory_error
      (Exec.bind_error (Memory.copyInto_error .identifier hlong _))))
  rw [Object.copiesOfCall, Object.call, hfield]
  dsimp only
  rw [Exec.bind_error hadd]
  exact ⟨_, List.mem_append_right _ List.mem_cons_self, hlong⟩

/-- All that an `add*` call copies fits exactly if the identifier does. All that `decode` copies
does, whatever is in memory behind the buffer, exactly if no scalar in the buffer is too long and
nothing behind the buffer is to be copied. -/
theorem copies_fit_iff (o : Object) (target : Message) :
    (∀ c : MutableMessage.Call, (∀ copy ∈ o.copiesOfCall layout malloc c, copy.Fits) ↔
      ∀ e ∈ c.field, e.identifier.length < Field.identifierSize) ∧
    ∀ view : ByteStorage, view.InRange →
      ((∀ behind, ∀ copy ∈ (Exposed.decode.run ⟨target, ⟨view, behind, []⟩⟩).2.source.copies,
        copy.Fits) ↔ MessageNarrow view.rest) := by
  refine ⟨fun c => ?_, fun view hin => Exposed.decode_fits_iff hin target⟩
  have hover := call_overrun c o.msg
  rw [Object.copiesOfCall]
  obtain ⟨_, o', _, m, hrun, hrun', -, h⟩ | ⟨e, o', m, hrun, hrun', h⟩ :=
    call_alike layout malloc c { o with memory := { o.memory with copies := [] } } o.msg
      ⟨rfl, List.forall_mem_nil _⟩
  · rw [hrun'] at hover
    rw [hrun]
    refine iff_of_true h.fit fun e he => ?_
    by_contra hlong
    cases hover.mpr ⟨e, he, hlong⟩
  · rw [hrun', Except.error.injEq] at hover
    rw [hrun, h.fit, Ne, hover]
    simp only [not_exists, not_and, not_not]

end Calls

theorem probe_copies :
    (∀ copy ∈ (Object.new Malloc.bump).copiesOfCall Layout.wide Malloc.bump
      (.addScalarField (.ofString "v") (.boolean true)), copy.Fits) ∧
    ∀ copy ∈ (Exposed.decode.run
      ⟨Message.new, ⟨.ofBytes probe.wire, [2, 0], []⟩⟩).2.source.copies, copy.Fits := by
  obtain ⟨hcall, hdecode⟩ :=
    copies_fit_iff Layout.wide Malloc.bump (Object.new Malloc.bump) Message.new
  refine ⟨(hcall _).mpr fun e he => ?_,
    (hdecode (.ofBytes probe.wire) (Nat.zero_le _)).mpr (by decide) [2, 0]⟩
  cases he
  decide

/-- An identifier of 256 characters. -/
def longName : CString where
  bytes := List.replicate 256 97
  noNul := by
    intro h
    exact absurd (List.eq_of_mem_replicate h) (by decide)

/-- A `uint64` that declares nine bytes. -/
def wideScalar : Bytes :=
  Message.wire { probe with payload := [.scalar (.ofString "v") .uint64 (List.replicate 9 7)] }

/-- Sixteen bytes that declare a subject behind them, and memory in which one is found with such a
field. -/
def wideBehind : Exposed where
  view := .ofBytes [1, 7, 0, 0, 0, 0, 0, 0, 0, 255, 0, 0, 0, 0, 2, 0]
  behind := [65, 0, 2, 1, 0, 0, 0, 7, 1, 9, 0, 0, 0, 118] ++ List.replicate 9 7
  copies := []

/-- `addScalarField` copies 257 bytes for `longName`, and `decode` copies the nine bytes of
`wideScalar`, and of `wideBehind`. -/
theorem overlong_not_fit :
    let o := Object.new Malloc.bump
    (∃ copy ∈ o.copiesOfCall Layout.wide Malloc.bump (.addScalarField longName (.boolean true)),
      ¬ copy.Fits) ∧
    ∀ s ∈ [⟨.ofBytes wideScalar, [], []⟩, wideBehind],
      ∃ copy ∈ (Exposed.decode.run ⟨Message.new, s⟩).2.source.copies, ¬ copy.Fits := by
  intro o
  have hlong : ¬ longName.length < Field.identifierSize := by
    rw [show longName.length = 256 from List.length_replicate]
    decide
  refine ⟨copiesOfCall_long _ _ (c := .addScalarField longName (.boolean true)) rfl hlong o,
    fun s hs => ?_⟩
  rw [List.mem_cons, List.mem_singleton] at hs
  obtain rfl | rfl := hs
  · exact ⟨⟨.raw, 9⟩, by decide, by decide⟩
  · exact ⟨⟨.raw, 9⟩, by decide, by decide⟩

end Fastpath
