import Fastpath.Proofs.Exposed

/-!
# Where decoding ends in its memory

`Reaches` says that a run does what the walk of `Reach` does over the rest of
the view. Where the walk ends within, the run answers and has taken as many
bytes; where it is refused, the run does not answer; and where it goes past the
end, so does every run that answers, and there is memory over which one does.

The induction is on the fuel of the walk, and the fuel of the decoder lasts as
long: a field takes its header off the view and off the memory alike.
-/

namespace Fastpath

open Fastpath.Lib

namespace Exposed

/-! ## Memory that is read as fields

Behind the end of the view nothing is refused for its length, so there the memory alone says how
it goes on. Fields of one kind, one behind the other, are read to the last of those that are
wanted. The scalar in them is a byte too long for its room. -/

/-- A `uint8` field without a name that declares nine bytes. -/
def fillerField : Bytes := [4, 0, 9, 0, 0, 0] ++ List.replicate 9 0

def filler : Nat → Bytes → Bytes
  | 0, tail => tail
  | n + 1, tail => fillerField ++ filler n tail

theorem filler_add (m n : Nat) (tail : Bytes) :
    filler (m + n) tail = filler m (filler n tail) := by
  induction m with
  | zero => rw [Nat.zero_add, filler]
  | succ m ih => rw [Nat.succ_add, filler, filler, ih]

theorem length_filler (n : Nat) (tail : Bytes) :
    (filler n tail).length = 15 * n + tail.length := by
  induction n with
  | zero => rw [filler, Nat.mul_zero, Nat.zero_add]
  | succ n ih =>
      rw [filler, List.length_append, ih, show fillerField.length = 15 from rfl]
      omega

theorem drop_filler (n : Nat) (tail : Bytes) : (filler n tail).drop (15 * n) = tail := by
  induction n with
  | zero => rw [filler, Nat.mul_zero, List.drop_zero]
  | succ n ih =>
      rw [filler, Nat.mul_succ, Nat.add_comm, ← List.drop_drop]
      exact ih

section Filler

variable {s : Decoding}

/-- Past the end, there is more left than any header asks for. -/
theorem remaining_beyond {view : ByteStorage} (hpast : view.bytes.length < view.read) (n : Nat) :
    (view.advanceRead n).remainingReadLength = 2 ^ 64 - (view.read + n - view.bytes.length) := by
  rw [ByteStorage.remainingReadLength]
  change (if view.read + n ≤ view.bytes.length then _ else 2 ^ 64 - (view.read + n -
    view.bytes.length)) = _
  rw [if_neg (by omega)]

theorem decodeField_filler (body : Exec Fault Decoding Bool) {tail : Bytes}
    (hpast : s.source.view.bytes.length < s.source.view.read)
    (hnear : s.source.view.read + 15 ≤ s.source.view.bytes.length + 2 ^ 63)
    (hunread : s.source.unread = fillerField ++ tail) :
    ∃ field s', (decodeField body).run s = (.ok field, s') ∧ Stepped s.source 15 s'.source ∧
      ∃ c ∈ s'.source.copies, ¬ c.Fits := by
  have hlen : s.source.unread.length = 15 + tail.length := by
    rw [hunread, List.length_append]
    rfl
  have htype : typeAt s.source.unread = .uint8 := by rw [hunread]; rfl
  have hid : identifierLengthAt s.source.unread = 0 := by rw [hunread]; rfl
  have hdata : dataLengthAt s.source.unread = 9 := by rw [hunread]; rfl
  have hpeek : (onSource peekFieldHeader).run s = (.ok (.uint8, 0, 9), s) := by
    refine onSource_ok ?_
    rw [peekFieldHeader_ok (by rw [MsgField.size]; omega), htype, hid, hdata]
  have hheader : readFieldHeader.run s.source =
      (.ok (headerOf s.source.unread), s.source.behindHeader) := by
    refine readFieldHeader_ok ?_ ?_ ?_ ?_
    · have := remaining_beyond hpast 0
      rw [MsgField.size]
      change 6 ≤ (s.source.view.advanceRead 0).remainingReadLength
      omega
    · rw [hid]
      exact Nat.zero_le _
    · rw [headerLength, hid, hdata, remaining_beyond hpast, MsgField.size]
      omega
    · rw [headerLength, hid, MsgField.size]
      omega
  have hfield := createScalarField_ok hheader (by
    change dataLengthAt s.source.unread ≤ s.source.behindHeader.unread.length
    rw [unread_behindHeader, List.length_drop, headerLength, hid, hdata, MsgField.size]
    omega)
  change createScalarField.run s.source = (.ok _, (s.source.behindHeader.noted .raw
    (dataLengthAt s.source.unread)).advanceRead (dataLengthAt s.source.unread)) at hfield
  rw [hdata] at hfield
  refine ⟨_, _, (Exec.bind_ok hpeek).trans (onSource_ok hfield), ?_, ⟨.raw, 9⟩,
    List.mem_append_right _ List.mem_cons_self, by decide⟩
  have hstep := stepped_behindHeader s.source
  rw [headerLength, hid] at hstep
  exact (hstep.trans (.noted .raw 9 _)).trans (.advanceRead _ 9)

/-- Behind a field the loop goes on. -/
theorem loop_run {x : Exec Fault Decoding Field} {s s₁ : Decoding} {field : Field}
    {fuel count : Nat}
    (hrun : x.run s = (.ok field, s₁)) :
    (do
      let field ← x
      Exec.modify (push field)
      decodeFields fuel count).run s = (decodeFields fuel count).run (push field s₁) :=
  (Exec.bind_ok hrun).trans (Exec.bind_ok (Exec.modify_run _ _))

/-- What was copied for a field stays copied. -/
theorem wide_loop {x : Exec Fault Decoding Field} {s : Decoding} {fuel count : Nat}
    (h : ∃ c ∈ (x.run s).2.source.copies, ¬ c.Fits) :
    ∃ c ∈ ((do
      let field ← x
      Exec.modify (push field)
      decodeFields fuel count).run s).2.source.copies, ¬ c.Fits := by
  obtain ⟨c, hc, hlong⟩ := h
  refine ⟨c, ?_, hlong⟩
  cases hrun : x.run s with
  | mk answer s₁ =>
      rw [hrun] at hc
      cases answer with
      | ok field =>
          rw [loop_run hrun]
          exact ((lasting_mem c).decodeFields fuel count).state (s := push field s₁) hc
      | error e =>
          rw [Exec.bind_error hrun]
          exact hc

theorem decodeFields_filler (count : Nat) : ∀ (fuel : Nat) (s : Decoding) (tail : Bytes),
    count ≤ fuel → s.source.view.bytes.length < s.source.view.read →
    s.source.view.read + 15 * count ≤ s.source.view.bytes.length + 2 ^ 63 →
    s.source.unread = filler count tail →
    ∃ s', (decodeFields fuel count).run s = (.ok (), s') ∧
      Stepped s.source (15 * count) s'.source ∧ (0 < count → ∃ c ∈ s'.source.copies, ¬ c.Fits) := by
  induction count with
  | zero =>
      intro fuel s tail _ _ _ _
      exact ⟨s, by rw [decodeFields.eq_def]; rfl, .refl _, fun h => absurd h (Nat.lt_irrefl 0)⟩
  | succ count ih =>
      intro fuel s tail hfuel hpast hnear hunread
      obtain ⟨fuel, rfl⟩ := Nat.exists_eq_succ_of_ne_zero (Nat.ne_zero_of_lt hfuel)
      obtain ⟨field, s₁, hrun, hstep, c, hc, hlong⟩ := decodeField_filler
        (decodeBody (decodeFields fuel)) hpast (by omega) hunread
      obtain ⟨s', hrest, hstep', -⟩ := ih fuel (push field s₁) tail
        (by omega)
        (by
          change s₁.source.view.bytes.length < s₁.source.view.read
          rw [hstep.view]
          exact Nat.lt_add_right _ hpast)
        (by
          change s₁.source.view.read + _ ≤ s₁.source.view.bytes.length + _
          rw [hstep.view]
          change s.source.view.read + 15 + 15 * count ≤ s.source.view.bytes.length + 2 ^ 63
          omega)
        (by
          change s₁.source.unread = _
          rw [hstep.unread, hunread, filler]
          rfl)
      refine ⟨s', ?_, ?_, fun _ => ⟨c, hstep'.copies c hc, hlong⟩⟩
      · rw [decodeFields, loop_run hrun]
        exact hrest
      · have htotal := hstep.trans hstep'
        rwa [show 15 + 15 * count = 15 * (count + 1) by omega] at htotal

end Filler

/-! ## Runs along the walk -/

section Reaches

variable {α β : Type}

/-- A run that goes past the end. Every one does that answers; there is memory over which one
answers, and memory over which the first field behind the end is a scalar that is too long. -/
structure Overshoots (x : Exec Fault Decoding α) (s : Decoding) (excess pending : Nat) : Prop where
  beyond : ∀ a s', x.run s = (.ok a, s') → Beyond s.source s'.source
  reached : ∀ front tail, front.length = excess → s.source.behind = front ++ filler pending tail →
    excess + 15 * pending ≤ 2 ^ 63 →
    ∃ a s', x.run s = (.ok a, s') ∧
      Stepped s.source (s.source.view.rest.length + excess + 15 * pending) s'.source
  noted : 0 < pending → ∀ front tail, front.length = excess →
    s.source.behind = front ++ (fillerField ++ tail) → excess + 15 ≤ 2 ^ 63 →
    ∃ c ∈ (x.run s).2.source.copies, ¬ c.Fits

/-- A run from `s` that does what the walk over the rest of the view does. -/
def Reaches (x : Exec Fault Decoding α) (s : Decoding) : Reach → Prop
  | .within n => n ≤ s.source.view.rest.length ∧
      ∃ a s', x.run s = (.ok a, s') ∧ Stepped s.source n s'.source
  | .refused => ∃ e s', x.run s = (.error e, s')
  | .past excess pending => Overshoots x s excess pending

/-- The message that is decoded into, and what is answered, do not matter. -/
theorem Reaches.of_alike {x : Exec Fault Decoding α} {y : Exec Fault Decoding β} {s t : Decoding}
    {reach : Reach} (hx : Reaches x s reach) (hsource : t.source = s.source)
    (hbehind : (y.run t).2.source = (x.run s).2.source)
    (halike : (∃ a s' b t', x.run s = (.ok a, s') ∧ y.run t = (.ok b, t')) ∨
      ∃ e s' e' t', x.run s = (.error e, s') ∧ y.run t = (.error e', t')) :
    Reaches y t reach := by
  cases reach with
  | within n =>
      obtain ⟨hn, a, s', hrun, hstep⟩ := hx
      obtain ⟨_, _, b, t', hxrun, hyrun⟩ | ⟨_, _, _, _, hxrun, -⟩ := halike
      · rw [hyrun, hrun] at hbehind
        exact ⟨hsource ▸ hn, b, t', hyrun, by rwa [hsource, hbehind]⟩
      · rw [hrun] at hxrun
        cases hxrun
  | refused =>
      obtain ⟨e, s', hrun⟩ := hx
      obtain ⟨_, _, _, _, hxrun, -⟩ | ⟨_, _, e', t', -, hyrun⟩ := halike
      · rw [hrun] at hxrun
        cases hxrun
      · exact ⟨e', t', hyrun⟩
  | past excess pending =>
      refine ⟨fun b t' hrun => ?_, fun front tail hfront hmemory hnear => ?_,
        fun hpending front tail hfront hmemory hnear => ?_⟩
      · obtain ⟨a, s', _, _, hxrun, -⟩ | ⟨_, _, _, _, -, hyrun⟩ := halike
        · have hbeyond := hx.beyond a s' hxrun
          rw [hrun, hxrun] at hbehind
          rwa [hsource, hbehind]
        · rw [hrun] at hyrun
          cases hyrun
      · obtain ⟨a, s', hrun, hstep⟩ := hx.reached front tail hfront (hsource ▸ hmemory) hnear
        obtain ⟨_, _, b, t', hxrun, hyrun⟩ | ⟨_, _, _, _, hxrun, -⟩ := halike
        · rw [hyrun, hrun] at hbehind
          exact ⟨b, t', hyrun, by rwa [hsource, hbehind]⟩
        · rw [hrun] at hxrun
          cases hxrun
      · rw [hbehind]
        exact hx.noted hpending front tail hfront (hsource ▸ hmemory) hnear

theorem Reaches.of_run_eq {x y : Exec Fault Decoding α} {s : Decoding} {reach : Reach}
    (hy : Reaches y s reach) (hrun : x.run s = y.run s) : Reaches x s reach := by
  refine hy.of_alike rfl (by rw [hrun]) ?_
  rw [hrun]
  cases y.run s with
  | mk answer s' =>
      cases answer with
      | ok a => exact .inl ⟨a, s', a, s', rfl, rfl⟩
      | error e => exact .inr ⟨e, s', e, s', rfl, rfl⟩

theorem Reaches.map {x : Exec Fault Decoding α} {s : Decoding} {reach : Reach}
    (hx : Reaches x s reach) (f : α → β) : Reaches (x >>= fun a => pure (f a)) s reach := by
  cases hrun : x.run s with
  | mk answer s' =>
      cases answer with
      | ok a =>
          have hmap : (x >>= fun a => pure (f a)).run s = (.ok (f a), s') := Exec.bind_ok hrun
          exact hx.of_alike rfl (by rw [hmap, hrun]) (.inl ⟨a, s', f a, s', hrun, hmap⟩)
      | error e =>
          have hmap : (x >>= fun a => pure (f a)).run s = (.error e, s') := Exec.bind_error hrun
          exact hx.of_alike rfl (by rw [hmap, hrun]) (.inr ⟨e, s', e, s', hrun, hmap⟩)

theorem Reaches.onFresh {x : Exec Fault Decoding α} {s : Decoding} {reach : Reach}
    (hx : Reaches x ⟨Message.new, s.source⟩ reach) : Reaches (onFresh x) s reach := by
  cases hrun : x.run ⟨Message.new, s.source⟩ with
  | mk answer sub =>
      cases answer with
      | ok a =>
          have hfresh : (Exposed.onFresh x).run s =
              (.ok sub.msg, { s with source := sub.source }) := by
            simp only [Exposed.onFresh, hrun]
          exact hx.of_alike rfl (by rw [hfresh, hrun]) (.inl ⟨a, sub, _, _, hrun, hfresh⟩)
      | error e =>
          have hfresh : (Exposed.onFresh x).run s =
              (.error e, { s with source := sub.source }) := by
            simp only [Exposed.onFresh, hrun]
          exact hx.of_alike rfl (by rw [hfresh, hrun]) (.inr ⟨e, sub, e, _, hrun, hfresh⟩)

/-- What comes behind `n` bytes of the view. -/
theorem Reaches.behind {x : Exec Fault Decoding α} {s t : Decoding} {n : Nat} {reach : Reach}
    (h : Reaches x t reach) (hn : n ≤ s.source.view.rest.length)
    (hstep : Stepped s.source n t.source) {y : Exec Fault Decoding α}
    (hrun : y.run s = x.run t) (count : Nat) :
    Reaches y s ((Reach.within n).followed count fun _ => reach) := by
  have hrest : t.source.view.rest.length = s.source.view.rest.length - n := by
    rw [hstep.rest, List.length_drop]
  have hbytes : t.source.view.bytes = s.source.view.bytes := by
    rw [hstep.view]
    rfl
  cases reach with
  | within k =>
      obtain ⟨hk, a, s', hok, hstep'⟩ := h
      exact ⟨by omega, a, s', hrun.trans hok, hstep.trans hstep'⟩
  | refused =>
      obtain ⟨e, s', herror⟩ := h
      exact ⟨e, s', hrun.trans herror⟩
  | past excess pending =>
      refine ⟨fun a s' hok => ?_, fun front tail hfront hbehind hnear => ?_,
        fun hpending front tail hfront hbehind hnear => ?_⟩
      · obtain ⟨hsame, hlt⟩ := h.beyond a s' (hrun.symm.trans hok)
        exact ⟨hsame.trans hbytes, hbytes ▸ hlt⟩
      · obtain ⟨a, s', hok, hstep'⟩ := h.reached front tail hfront
          (hstep.behind.trans hbehind) hnear
        refine ⟨a, s', hrun.trans hok, ?_⟩
        have htotal := hstep.trans hstep'
        rwa [show n + (t.source.view.rest.length + excess + 15 * pending) =
          s.source.view.rest.length + excess + 15 * pending by omega] at htotal
      · rw [hrun]
        exact h.noted hpending front tail hfront (hstep.behind.trans hbehind) hnear

end Reaches

/-! ## Fields -/

section Field

variable {s : Decoding}

theorem fieldReach_size {body : Bytes → Reach} {r : Bytes} {n : Nat}
    (h : fieldReach body r = .within n) : MsgField.size ≤ n := by
  rw [fieldReach, headerLength] at h
  split at h
  · cases h
  · generalize typeAt r = type at h
    cases type with
    | dateTime =>
        dsimp only at h
        split at h
        · cases h
          omega
        · cases h
    | message =>
        dsimp only [Reach.followed] at h
        split at h
        · cases h
          omega
        · cases h
        · cases h
    | _ =>
        cases h
        omega

/-- Where the header does not fit, nobody gets behind it. -/
theorem decodeField_refused (body : Exec Fault Decoding Bool) (hin : s.source.view.InRange)
    (hshort : ¬ FieldFits s.source.view.rest) :
    ∃ e s', (decodeField body).run s = (.error e, s') ∧
      (s'.source = s.source ∨ s'.source = (readFieldHeader.run s.source).2) := by
  obtain ⟨source, hheader⟩ := readFieldHeader_refused hin hshort
  have hbehind : source = (readFieldHeader.run s.source).2 := by rw [hheader]
  cases hpeek : peekFieldHeader.run s.source with
  | mk answer source₁ =>
      have hsame : source₁ = s.source := by
        obtain ⟨_, s₁, hrun, hs₁⟩ | ⟨_, s₁, hrun, -, hs₁⟩ :=
          keeps_peekFieldHeader (P := (· = s.source)) s.source rfl
        · rw [hpeek] at hrun
          cases hrun
          exact hs₁
        · rw [hpeek] at hrun
          cases hrun
          exact hs₁
      subst hsame
      cases answer with
      | error e => exact ⟨e, _, Exec.bind_error (onSource_error hpeek), .inl rfl⟩
      | ok header =>
          rw [decodeField, Exec.bind_ok (onSource_ok hpeek)]
          obtain ⟨type, identifierLength, dataSize⟩ := header
          cases type with
          | message => exact ⟨_, _, Exec.bind_error (onSource_error hheader), .inr hbehind⟩
          | _ => exact ⟨_, _, onSource_error (Exec.bind_error hheader), .inr hbehind⟩

/-- A reader of the buffer alone, that ends in the view. -/
theorem Reaches.of_source {α : Type} {x : Exec Fault Exposed α} {a : α} {source : Exposed} {n : Nat}
    (hrun : x.run s.source = (.ok a, source)) (hn : n ≤ s.source.view.rest.length)
    (hstep : Stepped s.source n source) : Reaches (onSource x) s (.within n) :=
  ⟨hn, a, _, onSource_ok hrun, hstep⟩

/-- The sixteen bytes are not all in the view. -/
theorem createDateTimeField_overshoots {header : FieldHeader} {source : Exposed} {n : Nat}
    (hheader : readFieldHeader.run s.source = (.ok header, source))
    (hstep : Stepped s.source n source) (hin : s.source.view.InRange)
    (hn : n ≤ s.source.view.rest.length)
    (hpast : s.source.view.rest.length < n + MutableMessage.dateTimeSize) :
    Overshoots (onSource createDateTimeField) s
      (n + MutableMessage.dateTimeSize - s.source.view.rest.length) 0 := by
  have hrest := ByteStorage.length_rest s.source.view
  rw [ByteStorage.InRange] at hin
  refine ⟨fun field s' hrun => ?_, fun front tail hfront hbehind _ => ?_,
    fun h => absurd h (Nat.lt_irrefl 0)⟩
  · cases hfield : createDateTimeField.run s.source with
    | mk answer source' =>
        cases answer with
        | error e =>
            rw [onSource_error hfield] at hrun
            cases hrun
        | ok field' =>
            rw [onSource_ok hfield] at hrun
            cases hrun
            change Beyond s.source source'
            rw [of_createDateTimeField_ok hheader hfield, Beyond]
            change (source.view.advanceRead _).bytes = _ ∧
              _ < (source.view.advanceRead _).read
            rw [hstep.view, ByteStorage.advanceRead_advanceRead]
            refine ⟨rfl, ?_⟩
            change _ < s.source.view.read + _
            omega
  · have hroom : MutableMessage.dateTimeSize ≤ source.unread.length := by
      rw [hstep.unread, List.length_drop, unread_eq hin, hbehind, List.length_append,
        List.length_append, hfront]
      omega
    obtain ⟨field, hfield⟩ := createDateTimeField_ok hheader hroom
    refine ⟨field, _, onSource_ok hfield, ?_⟩
    have htotal := hstep.trans (.advanceRead source MutableMessage.dateTimeSize)
    rwa [show n + MutableMessage.dateTimeSize = s.source.view.rest.length +
      (n + MutableMessage.dateTimeSize - s.source.view.rest.length) + 15 * 0 by omega] at htotal

theorem decodeField_reaches {body : Exec Fault Decoding Bool} {reach : Bytes → Reach}
    (hin : s.source.view.InRange)
    (hbody : FieldFits s.source.view.rest → Reaches body ⟨Message.new, s.source.behindHeader⟩
      (reach (s.source.view.rest.drop (headerLength s.source.view.rest)))) :
    Reaches (decodeField body) s (fieldReach reach s.source.view.rest) := by
  by_cases hfit : FieldFits s.source.view.rest
  · have hlength := headerLength_inside hin hfit.size_le
    have hheader := readFieldHeader_inside hin hfit
    have hpeek := onSource_ok (s := s) (peekFieldHeader_inside hin hfit)
    have hstep := stepped_behindHeader s.source
    rw [hlength] at hstep
    have hbody := hbody hfit
    obtain ⟨scalar, hscalar⟩ := createScalarField_inside hin hfit
    obtain ⟨data, hdata⟩ := createDataField_inside hin hfit
    rw [FieldFits] at hfit
    rw [decodeField, fieldReach, if_neg (Nat.not_lt.mpr hfit)]
    have hscalar : Reaches (onSource createScalarField) s
        (.within (headerLength s.source.view.rest + dataLengthAt s.source.view.rest)) :=
      .of_source hscalar hfit ((hstep.trans (.noted .raw _ _)).trans (.advanceRead _ _))
    have hdatafield : Reaches (onSource (createDataField (dataLengthAt s.source.view.rest))) s
        (.within (headerLength s.source.view.rest + dataLengthAt s.source.view.rest)) := by
      refine .of_source hdata hfit ?_
      split
      · exact (hstep.trans (.noted .storage _ _)).trans (.advanceRead _ _)
      · exact hstep.trans (.advanceRead _ _)
    have htime : Reaches (onSource createDateTimeField) s
        (if headerLength s.source.view.rest + MutableMessage.dateTimeSize ≤
            s.source.view.rest.length then
          .within (headerLength s.source.view.rest + MutableMessage.dateTimeSize)
        else .past (headerLength s.source.view.rest + MutableMessage.dateTimeSize -
          s.source.view.rest.length) 0) := by
      split
      · next hroom =>
          obtain ⟨field, hrun⟩ := createDateTimeField_ok hheader (by
            have hmem := rest_le_unread hin
            rw [unread_behindHeader, List.length_drop, hlength]
            omega)
          exact .of_source hrun hroom (hstep.trans (.advanceRead _ _))
      · next hroom =>
          exact createDateTimeField_overshoots hheader hstep hin (by omega) (by omega)
    have hmessage : Reaches (createMessageField body) s
        ((Reach.within (headerLength s.source.view.rest)).followed 0 fun n =>
          reach (s.source.view.rest.drop n)) := by
      refine Reaches.behind (t := ⟨s.msg, s.source.behindHeader⟩)
        (hbody.onFresh.map (Field.message (headerOf s.source.unread).identifier))
          (by omega) hstep ?_ 0
      rw [createMessageField, Exec.bind_ok (onSource_ok hheader)]
    refine Reaches.of_run_eq ?_ (Exec.bind_ok hpeek)
    dsimp only
    generalize typeAt s.source.view.rest = type
    cases type with
    | string | data => exact hdatafield
    | dateTime => exact htime
    | message => exact hmessage
    | _ => exact hscalar
  · rw [fieldReach, if_pos (Nat.lt_of_not_le hfit)]
    obtain ⟨e, s', hrun, -⟩ := decodeField_refused body hin hfit
    exact ⟨e, s', hrun⟩

end Field

/-! ## Bodies -/

section Body

variable {fields : Nat → Exec Fault Decoding Unit} {s : Decoding}

theorem decodeBody_absent (hin : s.source.view.InRange)
    (hsize : s.source.view.rest.length ≤ MsgHeader.size) :
    (decodeBody fields).run s = (.ok false, s) := by
  rw [decodeBody, Exec.bind_ok (Exec.get_run s), ByteStorage.remaining_eq hin,
    if_neg (Nat.not_lt.mpr hsize), Exec.pure_run]

theorem readScalar_marker (hin : s.source.view.InRange)
    (hsize : MsgHeader.size < s.source.view.rest.length) :
    (onSource (readScalar 1)).run s =
      (.ok (leNat (s.source.view.rest.take 1)), ⟨s.msg, s.source.advanceRead 1⟩) := by
  rw [MsgHeader.size] at hsize
  have hmem := rest_le_unread hin
  have htake := take_unread hin (show 0 + 1 ≤ s.source.view.rest.length by omega)
  rw [List.drop_zero, List.drop_zero] at htake
  rw [onSource_ok (readScalar_ok (w := 1) (by omega)), htake]

theorem decodeBody_corrupt (hin : s.source.view.InRange)
    (hsize : MsgHeader.size < s.source.view.rest.length)
    (hflag : leNat (s.source.view.rest.take 1) ≠ bodyFlag) :
    (decodeBody fields).run s =
      (.error (.exception "Received corrupt message - incorrect body marker"),
        ⟨s.msg, s.source.advanceRead 1⟩) := by
  rw [decodeBody, Exec.bind_ok (Exec.get_run s), ByteStorage.remaining_eq hin, if_pos hsize,
    Exec.bind_ok (readScalar_marker hin hsize), if_pos hflag, Exec.throw_run]

theorem decodeBody_counted (hin : s.source.view.InRange)
    (hsize : MsgHeader.size < s.source.view.rest.length)
    (hflag : ¬ leNat (s.source.view.rest.take 1) ≠ bodyFlag) :
    (decodeBody fields).run s =
      (do fields (fieldCountAt s.source.view.rest)
          pure (decide (0 < fieldCountAt s.source.view.rest))).run
        ⟨s.msg, s.source.advanceRead MsgHeader.size⟩ := by
  have hmem := rest_le_unread hin
  have hcount : (onSource (readScalar 4)).run ⟨s.msg, s.source.advanceRead 1⟩ =
      (.ok (fieldCountAt s.source.view.rest), ⟨s.msg, s.source.advanceRead MsgHeader.size⟩) := by
    rw [MsgHeader.size] at hsize
    rw [onSource_ok (s := ⟨s.msg, s.source.advanceRead 1⟩)
      (readScalar_behind (n := 1) (w := 4) (by omega)), take_unread hin (by omega), fieldCountAt]
    rfl
  rw [decodeBody, Exec.bind_ok (Exec.get_run s), ByteStorage.remaining_eq hin, if_pos hsize,
    Exec.bind_ok (readScalar_marker hin hsize), if_neg hflag, Exec.bind_ok hcount]

theorem decodeBody_reaches {reach : Nat → Bytes → Reach} (hin : s.source.view.InRange)
    (hfields : MsgHeader.size < s.source.view.rest.length →
      Reaches (fields (fieldCountAt s.source.view.rest))
        ⟨s.msg, s.source.advanceRead MsgHeader.size⟩
        (reach (fieldCountAt s.source.view.rest) (s.source.view.rest.drop MsgHeader.size))) :
    Reaches (decodeBody fields) s (bodyReach reach s.source.view.rest) := by
  rw [bodyReach]
  by_cases hsize : s.source.view.rest.length ≤ MsgHeader.size
  · rw [if_pos hsize]
    exact ⟨Nat.zero_le _, false, s, decodeBody_absent hin hsize, .refl _⟩
  · have hbehind := Nat.lt_of_not_le hsize
    rw [if_neg hsize]
    by_cases hflag : leNat (s.source.view.rest.take 1) ≠ bodyFlag
    · rw [if_pos hflag]
      exact ⟨_, _, decodeBody_corrupt hin hbehind hflag⟩
    · rw [if_neg hflag]
      exact Reaches.behind (t := ⟨s.msg, s.source.advanceRead MsgHeader.size⟩)
        ((hfields hbehind).map fun _ => decide (0 < fieldCountAt s.source.view.rest)) hbehind.le
        (.advanceRead _ _) (decodeBody_counted hin hbehind hflag) 0

end Body

/-! ## The field loop -/

/-- Over the right memory, the cursor arrives where that goes on. -/
theorem Overshoots.arrives {α : Type} {x : Exec Fault Decoding α} {s : Decoding}
    {excess pending : Nat} (h : Overshoots x s excess pending) (hin : s.source.view.InRange)
    {front tail : Bytes} (hfront : front.length = excess)
    (hbehind : s.source.behind = front ++ filler pending tail)
    (hnear : excess + 15 * pending ≤ 2 ^ 63) :
    ∃ a s₁, x.run s = (.ok a, s₁) ∧
      Stepped s.source (s.source.view.rest.length + excess + 15 * pending) s₁.source ∧
      s₁.source.unread = tail ∧ s₁.source.view.bytes.length < s₁.source.view.read ∧
      s₁.source.view.read = s₁.source.view.bytes.length + excess + 15 * pending := by
  obtain ⟨a, s₁, hrun, hstep⟩ := h.reached front tail hfront hbehind hnear
  obtain ⟨hbytes, hpast⟩ := h.beyond a s₁ hrun
  refine ⟨a, s₁, hrun, hstep, ?_, hbytes ▸ hpast, ?_⟩
  · rw [hstep.unread, unread_eq hin, hbehind, ← List.append_assoc, ← List.drop_drop,
      List.drop_left' (by rw [List.length_append, hfront]), drop_filler]
  · have hrest := ByteStorage.length_rest s.source.view
    rw [ByteStorage.InRange] at hin
    rw [hbytes, hstep.view]
    change s.source.view.read + _ = _
    omega

/-- A field that is a byte too long, behind one that went past the end. -/
theorem Overshoots.next {x : Exec Fault Decoding Field} {s : Decoding} {excess fuel count : Nat}
    (h : Overshoots x s excess 0) (hin : s.source.view.InRange)
    (hfuel : s.source.unread.length ≤ fuel + 1) (hsome : 0 < s.source.view.rest.length)
    {front tail : Bytes} (hfront : front.length = excess)
    (hbehind : s.source.behind = front ++ (fillerField ++ tail)) (hnear : excess + 15 ≤ 2 ^ 63) :
    ∃ c ∈ ((do
      let field ← x
      Exec.modify (push field)
      decodeFields fuel (count + 1)).run s).2.source.copies, ¬ c.Fits := by
  obtain ⟨field, s₁, hfield, -, hunread, hpast, hread⟩ :=
    h.arrives hin hfront (show _ = front ++ filler 0 (fillerField ++ tail) from hbehind) (by omega)
  have hlength : 15 ≤ s.source.unread.length - s.source.view.rest.length := by
    rw [unread_eq hin, hbehind, List.length_append, List.length_append, List.length_append,
      show fillerField.length = 15 from rfl]
    omega
  obtain ⟨fuel, rfl⟩ : ∃ fuel', fuel = fuel' + 1 := ⟨fuel - 1, by omega⟩
  obtain ⟨field', s₂, hfiller, -, hlong⟩ := decodeField_filler
    (decodeBody (decodeFields fuel)) (s := push field s₁) hpast
    (by
      change s₁.source.view.read + 15 ≤ s₁.source.view.bytes.length + 2 ^ 63
      omega) hunread
  rw [loop_run hfield, decodeFields]
  refine wide_loop ?_
  rw [hfiller]
  exact hlong

/-- A field that went past the end, and the ones behind it. -/
theorem Overshoots.followed {x : Exec Fault Decoding Field} {s : Decoding}
    {excess pending fuel count : Nat} (h : Overshoots x s excess pending)
    (hin : s.source.view.InRange)
    (hfuel : s.source.unread.length ≤ fuel + 1)
    (hsome : 0 < s.source.view.rest.length) :
    Overshoots (do
      let field ← x
      Exec.modify (push field)
      decodeFields fuel count) s excess (pending + count) := by
  refine ⟨fun a s' hrun => ?_, fun front tail hfront hbehind hnear => ?_,
    fun hpending front tail hfront hbehind hnear => ?_⟩
  · obtain ⟨field, s₁, hfield, -⟩ := Exec.of_bind_ok hrun
    rw [loop_run hfield] at hrun
    exact ((lasting_beyond s.source).decodeFields fuel count).ok (s := push field s₁)
      (h.beyond field s₁ hfield) hrun
  · rw [filler_add] at hbehind
    obtain ⟨field, s₁, hfield, hstep, hunread, hpast, hread⟩ :=
      h.arrives hin hfront hbehind (by omega)
    have hlength : 15 * count ≤ s.source.unread.length - s.source.view.rest.length := by
      rw [unread_eq hin, hbehind, List.length_append, List.length_append, length_filler,
        length_filler]
      omega
    obtain ⟨s', hrest, hstep', -⟩ := decodeFields_filler count fuel (push field s₁) tail
      (by omega) hpast
      (by
        change s₁.source.view.read + 15 * count ≤ s₁.source.view.bytes.length + 2 ^ 63
        omega) hunread
    refine ⟨(), s', (loop_run hfield).trans hrest, ?_⟩
    have htotal := hstep.trans hstep'
    rwa [show s.source.view.rest.length + excess + 15 * pending + 15 * count =
      s.source.view.rest.length + excess + 15 * (pending + count) by omega] at htotal
  · -- the field that is a byte too long is one of those inside, or the first of the rest
    by_cases hinside : 0 < pending
    · exact wide_loop (h.noted hinside front tail hfront hbehind hnear)
    · obtain rfl : pending = 0 := by omega
      obtain ⟨count, rfl⟩ : ∃ count', count = count' + 1 := ⟨count - 1, by omega⟩
      exact h.next hin hfuel hsome hfront hbehind hnear

/-- A field, whose body is read by a loop that follows the walk on fewer bytes. -/
theorem decodeField_loops {fuel room : Nat}
    (hloop : ∀ (room count : Nat) (s : Decoding), s.source.view.InRange →
      s.source.view.rest.length ≤ fuel → s.source.unread.length ≤ room →
      Reaches (decodeFields room count) s (fieldsReach fuel count s.source.view.rest))
    {s : Decoding} (hin : s.source.view.InRange) (hfuel : s.source.view.rest.length ≤ fuel + 1)
    (hroom : s.source.unread.length ≤ room + 1) :
    Reaches (decodeField (decodeBody (decodeFields room))) s
      (fieldReach (bodyReach (fieldsReach fuel)) s.source.view.rest) := by
  refine decodeField_reaches hin fun hfit => ?_
  have hlength := headerLength_inside hin hfit.size_le
  have hstep := stepped_behindHeader s.source
  have hunread := unread_behindHeader s.source
  rw [hlength] at hstep hunread
  have hheader : 6 ≤ headerLength s.source.view.rest := Nat.le_add_right _ _
  rw [FieldFits] at hfit
  have hin' := hstep.inRange hin (by omega)
  rw [← hstep.rest]
  refine decodeBody_reaches hin' fun hlong => ?_
  rw [hstep.rest] at hlong ⊢
  have hrest : (s.source.behindHeader.advanceRead MsgHeader.size).view.rest =
      (s.source.view.rest.drop (headerLength s.source.view.rest)).drop MsgHeader.size := by
    rw [← hstep.rest]
    exact ByteStorage.rest_advanceRead _ _
  have hfields := hloop room
    (fieldCountAt (s.source.view.rest.drop (headerLength s.source.view.rest)))
    ⟨Message.new, s.source.behindHeader.advanceRead MsgHeader.size⟩
    (hin'.advanceRead (by rw [hstep.rest]; exact hlong.le))
    (by
      dsimp only
      rw [hrest, List.length_drop, List.length_drop]
      omega)
    (by
      dsimp only
      rw [unread_advanceRead, hunread, List.length_drop, List.length_drop]
      omega)
  dsimp only at hfields
  rwa [hrest] at hfields

theorem decodeFields_refused {room count : Nat} {s : Decoding} (hin : s.source.view.InRange)
    (hshort : ¬ FieldFits s.source.view.rest) :
    ∃ e s', (decodeFields room (count + 1)).run s = (.error e, s') := by
  cases room with
  | zero => exact ⟨.outOfBounds, s, rfl⟩
  | succ room =>
      obtain ⟨e, s', hrun, -⟩ := decodeField_refused (decodeBody (decodeFields room)) hin hshort
      exact ⟨e, s', Exec.bind_error hrun⟩

/-- A field takes six bytes at least, so the fuel of either side lasts. -/
theorem decodeFields_reaches (fuel : Nat) : ∀ (room count : Nat) (s : Decoding),
    s.source.view.InRange → s.source.view.rest.length ≤ fuel → s.source.unread.length ≤ room →
    Reaches (decodeFields room count) s (fieldsReach fuel count s.source.view.rest) := by
  induction fuel with
  | zero =>
      intro room count s hin hfuel hroom
      cases count with
      | zero =>
          rw [decodeFields.eq_def, fieldsReach.eq_def]
          exact ⟨Nat.zero_le _, (), s, rfl, .refl _⟩
      | succ count =>
          refine decodeFields_refused hin fun hfit => ?_
          have hsize := hfit.size_le
          rw [MsgField.size] at hsize
          omega
  | succ fuel ih =>
      intro room count s hin hfuel hroom
      cases count with
      | zero =>
          rw [decodeFields.eq_def, fieldsReach.eq_def]
          exact ⟨Nat.zero_le _, (), s, rfl, .refl _⟩
      | succ count =>
          rw [fieldsReach]
          by_cases hfit : FieldFits s.source.view.rest
          · have hsize := hfit.size_le
            have hmem := rest_le_unread hin
            rw [MsgField.size] at hsize
            obtain ⟨room, rfl⟩ : ∃ room', room = room' + 1 := ⟨room - 1, by omega⟩
            have hfield := decodeField_loops ih hin hfuel hroom
            rw [decodeFields]
            cases hreach : fieldReach (bodyReach (fieldsReach fuel)) s.source.view.rest with
            | within n =>
                rw [hreach] at hfield
                obtain ⟨hn, field, s₁, hrun, hstep⟩ := hfield
                have hleast := fieldReach_size hreach
                rw [MsgField.size] at hleast
                have hmore := ih room count (push field s₁) (hstep.inRange hin hn)
                  (by
                    change s₁.source.view.rest.length ≤ fuel
                    rw [hstep.rest, List.length_drop]
                    omega)
                  (by
                    change s₁.source.unread.length ≤ room
                    rw [hstep.unread, List.length_drop]
                    omega)
                change Reaches _ _ (fieldsReach fuel count s₁.source.view.rest) at hmore
                rw [hstep.rest] at hmore
                refine Reaches.behind hmore hn hstep ?_ count
                exact loop_run hrun
            | refused =>
                rw [hreach] at hfield
                obtain ⟨e, s', hrun⟩ := hfield
                exact ⟨e, s', Exec.bind_error hrun⟩
            | past excess pending =>
                rw [hreach] at hfield
                exact Overshoots.followed hfield hin hroom (by omega)
          · rw [fieldReach, if_pos (Nat.lt_of_not_le hfit)]
            exact decodeFields_refused hin hfit

/-! ## Messages -/

section Addressing

variable {s : Exposed} {n : Nat}

theorem haveCompleteMessage_run (hin : s.view.InRange) :
    haveCompleteMessage.run s = (.ok (frameStatus s.view.rest), s) := by
  have hmem := rest_le_unread hin
  rw [haveCompleteMessage, Exec.bind_ok (onView_get s), ByteStorage.remaining_eq hin, frameStatus]
  by_cases hsize : MsgAddressing.size ≤ s.view.rest.length
  · rw [if_pos hsize, if_pos hsize]
    rw [MsgAddressing.size] at hsize
    have hmark := take_unread hin (show 0 + 1 ≤ s.view.rest.length by omega)
    rw [List.drop_zero, List.drop_zero] at hmark
    rw [Exec.bind_ok (peekScalar_ok (by omega)), List.drop_zero, hmark]
    by_cases hchk : leNat (s.view.rest.take 1) ≠ addressingFlag
    · rw [if_pos hchk, if_pos hchk, Exec.pure_run]
    · rw [if_neg hchk, if_neg hchk, Exec.bind_ok (peekScalar_ok (by omega)),
        take_unread hin (by omega)]
      dsimp only
      split
      · rfl
      · rfl
  · rw [if_neg hsize, if_neg hsize, Exec.pure_run]

theorem addressingDetails_complete (hin : s.view.InRange)
    (h : frameStatus s.view.rest = (.complete, n)) :
    addressingDetails.run s =
      (.ok (.complete, some ⟨s.view.read + MsgAddressing.size, subjectLengthAt s.view.rest,
          flagsAt s.view.rest, n⟩),
        s.advanceRead (MsgAddressing.size + subjectLengthAt s.view.rest)) := by
  have hsize := (size_le_of_complete h).1
  have hmem := rest_le_unread hin
  rw [MsgAddressing.size] at hsize
  have hflags : (peekScalar 0 1).run (s.advanceRead 9) =
      (.ok (leNat ((s.view.rest.drop 9).take 1)), s.advanceRead 9) := by
    rw [peekScalar_ok (by rw [unread_advanceRead, List.length_drop]; omega),
      unread_advanceRead, List.drop_zero, take_unread hin (by omega)]
  have hlength : (peekScalar 0 2).run (s.advanceRead 14) =
      (.ok (subjectLengthAt s.view.rest), s.advanceRead 14) := by
    rw [peekScalar_ok (by rw [unread_advanceRead, List.length_drop]; omega),
      unread_advanceRead, List.drop_zero, take_unread hin (by omega), subjectLengthAt]
  rw [addressingDetails, Exec.bind_ok (haveCompleteMessage_run hin), h]
  dsimp only
  rw [Exec.bind_ok (Exec.modify_run _ _), Exec.bind_ok (Exec.modify_run _ _),
    advanceRead_advanceRead, Exec.bind_ok hflags, Exec.bind_ok (Exec.modify_run _ _),
    Exec.bind_ok (Exec.modify_run _ _), advanceRead_advanceRead, advanceRead_advanceRead,
    Exec.bind_ok hlength, Exec.bind_ok (Exec.modify_run _ _), Exec.bind_ok (onView_get _),
    Exec.bind_ok (Exec.modify_run _ _), Exec.pure_run, advanceRead_advanceRead,
    advanceRead_advanceRead]
  rfl

theorem addressingDetails_other {status : DecodeStatus} (hin : s.view.InRange)
    (h : frameStatus s.view.rest = (status, n)) (hne : status ≠ .complete) :
    addressingDetails.run s = (.ok (status, none), s) := by
  rw [addressingDetails, Exec.bind_ok (haveCompleteMessage_run hin), h]
  cases status with
  | complete => exact absurd rfl hne
  | incomplete => rfl
  | corrupt => rfl

end Addressing

/-- The subject as it is copied, from wherever it stands in memory. -/
def subjectOf (s : Exposed) : Bytes :=
  (s.unread.drop MsgAddressing.size).take (subjectLengthAt s.view.rest)

/-- What the body is decoded into and from. -/
def addressed (d : Decoding) : Decoding where
  msg :=
    { d.msg with
      flags := flagsAt d.source.view.rest
      subject := Message.copyFront d.msg.subject d.source.subjectOf }
  source := (d.source.advanceRead (MsgAddressing.size + subjectLengthAt d.source.view.rest)).noted
    .subject (subjectLengthAt d.source.view.rest)

section Decode

variable {d : Decoding} {n : Nat}

theorem decode_corrupt (hin : d.source.view.InRange)
    (h : frameStatus d.source.view.rest = (.corrupt, n)) :
    decode.run d =
      (.error (.exception "Received corrupt message - incorrect addressing marker"), d) := by
  have haddr := onSource_ok (addressingDetails_other hin h (by decide))
  rw [decode, Exec.bind_ok (Exec.get_run _), Exec.bind_ok haddr]
  rfl

theorem decode_incomplete (hin : d.source.view.InRange)
    (h : frameStatus d.source.view.rest = (.incomplete, n)) : decode.run d = (.ok false, d) := by
  have haddr := onSource_ok (addressingDetails_other hin h (by decide))
  rw [decode, Exec.bind_ok (Exec.get_run _), Exec.bind_ok haddr]
  rfl

/-- Wherever the subject is, the body is decoded behind it. -/
theorem decode_complete (hin : d.source.view.InRange)
    (h : frameStatus d.source.view.rest = (.complete, n)) :
    MsgAddressing.size + subjectLengthAt d.source.view.rest ≤ d.source.unread.length ∧
        decode.run d =
          (decodeBody (decodeFields d.source.unread.length)).run (addressed d) ∨
      d.source.unread.length < MsgAddressing.size + subjectLengthAt d.source.view.rest ∧
        decode.run d = (.error .outOfBounds,
          ⟨{ d.msg with flags := flagsAt d.source.view.rest },
            d.source.advanceRead (MsgAddressing.size + subjectLengthAt d.source.view.rest)⟩) := by
  have haddr := onSource_ok (addressingDetails_complete hin h)
  have hsize := (size_le_of_complete h).1
  have hmem := rest_le_unread hin
  have hlen := length_unread d.source
  rw [ByteStorage.InRange] at hin
  rw [decode, Exec.bind_ok (Exec.get_run _), Exec.bind_ok haddr]
  dsimp only
  rw [Exec.bind_ok (Exec.modify_run _ _)]
  by_cases hfits : MsgAddressing.size + subjectLengthAt d.source.view.rest ≤ d.source.unread.length
  · refine .inl ⟨hfits, ?_⟩
    have hpeek := peekBytes_ok (s := d.source.advanceRead MsgAddressing.size)
      (show 0 + subjectLengthAt d.source.view.rest ≤ _ by
        rw [unread_advanceRead, List.length_drop]
        omega)
    rw [unread_advanceRead, List.drop_zero] at hpeek
    have hcopy : (copyFrom (d.source.view.read + MsgAddressing.size)
        (subjectLengthAt d.source.view.rest)).run
          (d.source.advanceRead (MsgAddressing.size + subjectLengthAt d.source.view.rest)) =
        (.ok d.source.subjectOf,
          d.source.advanceRead (MsgAddressing.size + subjectLengthAt d.source.view.rest)) := by
      change (((peekBytes 0 _).run (d.source.advanceRead MsgAddressing.size)).1, _) = _
      rw [hpeek]
      rfl
    rw [Exec.bind_ok (onSource_ok hcopy), copyInto,
      Exec.bind_ok (onSource_ok (Exec.modify_run _ _)),
      Exec.bind_ok (Exec.modify_run _ _)]
    rfl
  · refine .inr ⟨by omega, ?_⟩
    have hcopy : (copyFrom (d.source.view.read + MsgAddressing.size)
        (subjectLengthAt d.source.view.rest)).run
          (d.source.advanceRead (MsgAddressing.size + subjectLengthAt d.source.view.rest)) =
        (.error .outOfBounds,
          d.source.advanceRead (MsgAddressing.size + subjectLengthAt d.source.view.rest)) := by
      change (((peekBytes 0 _).run (d.source.advanceRead MsgAddressing.size)).1, _) = _
      have hshort : ¬ (subjectLengthAt d.source.view.rest = 0 ∨
          d.source.view.read + MsgAddressing.size + 0 + subjectLengthAt d.source.view.rest ≤
            (d.source.view.bytes ++ d.source.behind).length) := by
        rw [List.length_append]
        omega
      simp only [peekBytes]
      exact congrArg (fun x : Except Fault Bytes × Exposed => (x.1, _)) (if_neg hshort)
    rw [Exec.bind_error (onSource_error hcopy)]

end Decode

end Exposed

/-! ## Messages along the walk -/

/-- What stands behind the subject. -/
def bodyAt (r : Bytes) : Bytes := r.drop (MsgAddressing.size + subjectLengthAt r)

/-- The subject is where it is declared to be. -/
def SubjectFits (r : Bytes) : Prop := MsgAddressing.size + subjectLengthAt r ≤ r.length

instance : DecidablePred SubjectFits := fun r =>
  inferInstanceAs (Decidable (MsgAddressing.size + subjectLengthAt r ≤ r.length))

/-- A body that is no longer than its own header, or says that it has no field. -/
def BodyEmpty (r : Bytes) : Prop :=
  r.length ≤ MsgHeader.size ∨ leNat (r.take 1) = bodyFlag ∧ fieldCountAt r = 0

instance : DecidablePred BodyEmpty := fun r =>
  inferInstanceAs (Decidable (r.length ≤ MsgHeader.size ∨
    leNat (r.take 1) = bodyFlag ∧ fieldCountAt r = 0))

/-- A message whose subject is there. -/
def messageReach (r : Bytes) : Reach :=
  (Reach.within (MsgAddressing.size + subjectLengthAt r)).followed 0 fun _ =>
    bodyReach (fieldsReach r.length) (bodyAt r)

/-! ## How far past the end -/

section Past

variable {excess pending : Nat}

theorem Reach.of_followed_past {n count : Nat} {more : Nat → Reach}
    (h : (Reach.within n).followed count more = .past excess pending) :
    more n = .past excess pending := by
  rw [followed.eq_def] at h
  dsimp only at h
  split at h
  · cases h
  · cases h
  · next hmore => rw [hmore, h]

theorem fieldReach_past {body : Bytes → Reach} {most : Nat}
    (hbody : ∀ r excess pending, body r = .past excess pending → excess ≤ 16 ∧ pending ≤ most)
    {r : Bytes} (h : fieldReach body r = .past excess pending) : excess ≤ 16 ∧ pending ≤ most := by
  rw [fieldReach] at h
  split at h
  · cases h
  · next hfit =>
      generalize typeAt r = type at h
      cases type with
      | dateTime =>
          dsimp only at h
          split at h
          · cases h
          · cases h
            rw [MutableMessage.dateTimeSize]
            omega
      | message => exact hbody _ _ _ (Reach.of_followed_past h)
      | _ => cases h

theorem bodyReach_past {fields : Nat → Bytes → Reach} {most : Nat}
    (hfields : ∀ count r excess pending, fields count r = .past excess pending →
      excess ≤ 16 ∧ pending ≤ count + most)
    (r : Bytes) (excess pending : Nat) (h : bodyReach fields r = .past excess pending) :
    excess ≤ 16 ∧ pending ≤ 2 ^ 32 + most := by
  rw [bodyReach] at h
  split at h
  · cases h
  · split at h
    · cases h
    · obtain ⟨hover, hpending⟩ := hfields _ _ _ _ (Reach.of_followed_past h)
      have hcount : fieldCountAt r < 256 ^ 4 :=
        (leNat_lt _).trans_le (Nat.pow_le_pow_right (by decide) (List.length_take_le _ _))
      exact ⟨hover, by omega⟩

/-- At most sixteen bytes, with no more fields to come than the bodies around it declare. -/
theorem fieldsReach_past (fuel : Nat) : ∀ (count : Nat) (r : Bytes) (excess pending : Nat),
    fieldsReach fuel count r = .past excess pending →
    excess ≤ 16 ∧ pending ≤ count + 2 ^ 32 * fuel := by
  induction fuel with
  | zero =>
      intro count r excess pending h
      cases count with
      | zero => cases h
      | succ count => cases h
  | succ fuel ih =>
      intro count r excess pending h
      cases count with
      | zero => cases h
      | succ count =>
          rw [fieldsReach] at h
          cases hfield : fieldReach (bodyReach (fieldsReach fuel)) r with
          | within n =>
              rw [hfield] at h
              obtain ⟨hover, hpending⟩ := ih _ _ _ _ (Reach.of_followed_past h)
              exact ⟨hover, by omega⟩
          | refused =>
              rw [hfield] at h
              cases h
          | past over' pending' =>
              rw [hfield] at h
              cases h
              obtain ⟨hover, hpending⟩ := fieldReach_past (bodyReach_past ih) hfield
              exact ⟨hover, by omega⟩

theorem messageReach_past {r : Bytes} (h : messageReach r = .past excess pending) :
    excess ≤ 16 ∧ pending ≤ 2 ^ 32 + 2 ^ 32 * r.length :=
  bodyReach_past (fieldsReach_past r.length) _ _ _ (Reach.of_followed_past h)

/-- A body that goes past the end has fields. -/
theorem not_bodyEmpty_of_past {r : Bytes} (h : messageReach r = .past excess pending) :
    ¬ BodyEmpty (bodyAt r) := by
  have hbody := Reach.of_followed_past h
  rw [bodyReach] at hbody
  rintro (hshort | ⟨hflag, hnone⟩)
  · rw [if_pos hshort] at hbody
    cases hbody
  · split at hbody
    · cases hbody
    · rw [if_neg (not_not_intro hflag), hnone] at hbody
      have hfields := Reach.of_followed_past hbody
      rw [fieldsReach.eq_def] at hfields
      cases hfields

end Past

namespace Exposed

/-- Whether a body had a field is all that is answered. -/
theorem decodeBody_answer {fields : Nat → Exec Fault Decoding Unit} {s s' : Decoding}
    {answer : Bool} (hin : s.source.view.InRange)
    (h : (decodeBody fields).run s = (.ok answer, s')) :
    answer = true ↔ ¬ BodyEmpty s.source.view.rest := by
  rw [BodyEmpty]
  by_cases hsize : s.source.view.rest.length ≤ MsgHeader.size
  · rw [decodeBody_absent hin hsize] at h
    cases h
    exact iff_of_false Bool.noConfusion fun h => h (.inl hsize)
  · by_cases hflag : leNat (s.source.view.rest.take 1) ≠ bodyFlag
    · rw [decodeBody_corrupt hin (Nat.lt_of_not_le hsize) hflag] at h
      cases h
    · rw [decodeBody_counted hin (Nat.lt_of_not_le hsize) hflag] at h
      obtain ⟨_, s₁, -, hpure⟩ := Exec.of_bind_ok h
      cases hpure
      rw [decide_eq_true_iff, Nat.pos_iff_ne_zero]
      refine not_congr ⟨fun h => .inr ⟨Decidable.not_not.mp hflag, h⟩, ?_⟩
      rintro (hshort | ⟨-, hnone⟩)
      · exact absurd hshort hsize
      · exact hnone

theorem decodeBody_empty {fuel : Nat} {s : Decoding} (hin : s.source.view.InRange)
    (h : BodyEmpty s.source.view.rest) :
    ∃ s', (decodeBody (decodeFields fuel)).run s = (.ok false, s') := by
  by_cases hsize : s.source.view.rest.length ≤ MsgHeader.size
  · exact ⟨s, decodeBody_absent hin hsize⟩
  · obtain hshort | ⟨hflag, hnone⟩ := h
    · exact absurd hshort hsize
    · rw [decodeBody_counted hin (Nat.lt_of_not_le hsize) (not_not_intro hflag), hnone,
        decodeFields.eq_def]
      exact ⟨_, rfl⟩

section Message

variable {d : Decoding} {n : Nat}

theorem stepped_addressed (d : Decoding) :
    Stepped d.source (MsgAddressing.size + subjectLengthAt d.source.view.rest)
      (addressed d).source :=
  (Stepped.advanceRead d.source
    (MsgAddressing.size + subjectLengthAt d.source.view.rest)).trans (.noted .subject _ _)

/-- A message whose subject is in the view, up to its body. -/
theorem decode_addressed (hin : d.source.view.InRange)
    (h : frameStatus d.source.view.rest = (.complete, n))
    (hsubject : SubjectFits d.source.view.rest) :
    (addressed d).source.view.InRange ∧
      (addressed d).source.view.rest = bodyAt d.source.view.rest ∧
      decode.run d = (decodeBody (decodeFields d.source.unread.length)).run (addressed d) := by
  refine ⟨(stepped_addressed d).inRange hin hsubject, (stepped_addressed d).rest, ?_⟩
  rw [SubjectFits] at hsubject
  have hmem := rest_le_unread hin
  obtain ⟨-, hrun⟩ | ⟨hlong, -⟩ := decode_complete hin h
  · exact hrun
  · exact absurd (hsubject.trans hmem) (Nat.not_le.mpr hlong)

theorem decode_reaches (hin : d.source.view.InRange)
    (h : frameStatus d.source.view.rest = (.complete, n))
    (hsubject : SubjectFits d.source.view.rest) :
    Reaches decode d (messageReach d.source.view.rest) := by
  obtain ⟨hin', hrest, hrun⟩ := decode_addressed hin h hsubject
  have hmem := (stepped_addressed d).unread
  refine Reaches.behind (t := addressed d) ?_ hsubject (stepped_addressed d) hrun 0
  rw [← hrest]
  refine decodeBody_reaches hin' fun hlong => ?_
  have hloop := decodeFields_reaches d.source.view.rest.length d.source.unread.length
    (fieldCountAt (addressed d).source.view.rest)
    ⟨(addressed d).msg, (addressed d).source.advanceRead MsgHeader.size⟩
    (hin'.advanceRead hlong.le)
    (by
      change ((addressed d).source.view.advanceRead _).rest.length ≤ _
      rw [ByteStorage.rest_advanceRead, hrest, bodyAt, List.length_drop, List.length_drop]
      omega)
    (by
      dsimp only
      rw [unread_advanceRead, hmem, List.length_drop, List.length_drop]
      omega)
  change Reaches _ _ (fieldsReach _ _ ((addressed d).source.view.advanceRead _).rest) at hloop
  rwa [ByteStorage.rest_advanceRead] at hloop

theorem decode_answer (hin : d.source.view.InRange)
    (h : frameStatus d.source.view.rest = (.complete, n))
    (hsubject : SubjectFits d.source.view.rest)
    {answer : Bool} {d' : Decoding} (hrun : decode.run d = (.ok answer, d')) :
    answer = true ↔ ¬ BodyEmpty (bodyAt d.source.view.rest) := by
  obtain ⟨hin', hrest, hbody⟩ := decode_addressed hin h hsubject
  rw [← hrest]
  exact decodeBody_answer hin' (hbody.symm.trans hrun)

/-- A subject that goes past the end takes the cursor with it. -/
theorem decode_beyond (hin : d.source.view.InRange)
    (h : frameStatus d.source.view.rest = (.complete, n))
    (hlong : ¬ SubjectFits d.source.view.rest) {answer : Bool} {d' : Decoding}
    (hrun : decode.run d = (.ok answer, d')) : Beyond d.source d'.source := by
  have hrest := ByteStorage.length_rest d.source.view
  rw [SubjectFits] at hlong
  rw [ByteStorage.InRange] at hin
  obtain ⟨-, hbody⟩ | ⟨-, herror⟩ := decode_complete hin h
  · rw [hbody] at hrun
    refine ((lasting_beyond d.source).decodeBody
      ((lasting_beyond d.source).decodeFields _)).ok ?_ hrun
    rw [Beyond, (stepped_addressed d).view]
    refine ⟨rfl, ?_⟩
    change _ < d.source.view.read + _
    omega
  · rw [herror] at hrun
    cases hrun

/-- Memory behind the view that reads as the end of the subject and a body of `count` fields. -/
def followUp (front : Bytes) (count : Nat) : Bytes :=
  front ++ ([2] ++ (leBytes 4 count ++ filler count []))

/-- The memory behind the view reads as a body of `count` fields. -/
theorem decodeBody_filler {s : Decoding} {count fuel : Nat}
    (hpast : s.source.view.bytes.length < s.source.view.read)
    (hnear : s.source.view.read + 5 + 15 * count ≤ s.source.view.bytes.length + 2 ^ 63)
    (hunread : s.source.unread = [2] ++ (leBytes 4 count ++ filler count []))
    (hfuel : count ≤ fuel) (hcount : count < 2 ^ 32) :
    ∃ s', (decodeBody (decodeFields fuel)).run s = (.ok (decide (0 < count)), s') ∧
      (0 < count → ∃ c ∈ s'.source.copies, ¬ c.Fits) := by
  have hlength := congrArg List.length hunread
  simp only [List.length_append, List.length_cons, List.length_nil, leBytes_length] at hlength
  have hroom : s.source.view.remainingReadLength > MsgHeader.size := by
    have hleft := remaining_beyond hpast 0
    change s.source.view.remainingReadLength = _ at hleft
    rw [MsgHeader.size]
    omega
  have hmarker : (onSource (readScalar 1)).run s =
      (.ok bodyFlag, ⟨s.msg, s.source.advanceRead 1⟩) := by
    rw [onSource_ok (readScalar_ok (w := 1) (by omega)), hunread]
    rfl
  have hcounted : (onSource (readScalar 4)).run ⟨s.msg, s.source.advanceRead 1⟩ =
      (.ok count, ⟨s.msg, s.source.advanceRead 5⟩) := by
    rw [onSource_ok (s := ⟨s.msg, s.source.advanceRead 1⟩)
      (readScalar_behind (n := 1) (w := 4) (by omega)), hunread,
      List.drop_left' (show ([2] : Bytes).length = 1 from rfl),
      List.take_left' (leBytes_length 4 count), leNat_leBytes_of_lt hcount]
  have hfields : (s.source.advanceRead 5).unread = filler count [] := by
    rw [unread_advanceRead, hunread, ← List.append_assoc]
    exact List.drop_left' (by simp only [List.length_append, List.length_cons, List.length_nil,
      leBytes_length])
  obtain ⟨s', hloop, -, hbad⟩ := decodeFields_filler count fuel ⟨s.msg, s.source.advanceRead 5⟩ []
    hfuel (Nat.lt_add_right 5 hpast) hnear hfields
  refine ⟨s', ?_, hbad⟩
  rw [decodeBody, Exec.bind_ok (Exec.get_run _), if_pos hroom, Exec.bind_ok hmarker,
    if_neg (not_not_intro rfl), Exec.bind_ok hcounted, Exec.bind_ok hloop, Exec.pure_run]

theorem decode_followUp (hin : d.source.view.InRange)
    (h : frameStatus d.source.view.rest = (.complete, n))
    (hlong : ¬ SubjectFits d.source.view.rest) {front : Bytes} {count : Nat}
    (hfront : d.source.view.rest.length + front.length =
      MsgAddressing.size + subjectLengthAt d.source.view.rest)
    (hbehind : d.source.behind = followUp front count) (hcount : count < 2 ^ 32) :
    ∃ d', decode.run d = (.ok (decide (0 < count)), d') ∧
      (0 < count → ∃ c ∈ d'.source.copies, ¬ c.Fits) := by
  have hrest := ByteStorage.length_rest d.source.view
  have hsize : MsgAddressing.size = 16 := rfl
  have hshort : subjectLengthAt d.source.view.rest < 256 ^ 2 :=
    (leNat_lt _).trans_le (Nat.pow_le_pow_right (by decide) (List.length_take_le _ _))
  have hmemory := unread_eq hin
  rw [hbehind, followUp, ← List.append_assoc] at hmemory
  have htotal := congrArg List.length hmemory
  have hfiller := length_filler count []
  simp only [List.length_append, List.length_cons, List.length_nil, leBytes_length]
    at htotal hfiller
  rw [SubjectFits] at hlong
  rw [ByteStorage.InRange] at hin
  have hunread : (addressed d).source.unread = [2] ++ (leBytes 4 count ++ filler count []) := by
    rw [(stepped_addressed d).unread, hmemory]
    exact List.drop_left' (by rw [List.length_append, hfront])
  have hread : (addressed d).source.view.read = d.source.view.bytes.length + front.length := by
    rw [(stepped_addressed d).view]
    change d.source.view.read + _ = _
    omega
  obtain ⟨-, hrun⟩ | ⟨hend, -⟩ := decode_complete hin h
  · rw [hrun]
    refine decodeBody_filler ?_ ?_ hunread (by omega) hcount
    · rw [hread]
      change d.source.view.bytes.length < _
      omega
    · rw [hread]
      change _ ≤ d.source.view.bytes.length + 2 ^ 63
      omega
  · -- the memory goes on behind the subject
    omega

/-- The message goes on behind the end of its bytes. -/
def Overruns (r : Bytes) : Prop :=
  ¬ SubjectFits r ∨ ∃ excess pending, messageReach r = .past excess pending

/-- It is the memory behind that decides whether such a message is one. For some of it, it is, with
a subject that ends nowhere but in the view. -/
theorem decode_overruns {r : Bytes} (h : frameStatus r = (.complete, n)) (hover : Overruns r)
    (hsize : r.length < 2 ^ 26) :
    ∃ behind, ∀ (view : ByteStorage) (target : Message) (copies : List Copy), view.InRange →
      view.rest = r → ∃ d', decode.run ⟨target, ⟨view, behind, copies⟩⟩ = (.ok true, d') ∧
        view.bytes.length < d'.source.view.read ∧
        (0 ∈ subjectOf ⟨view, behind, copies⟩ → 0 ∈ wireSubject r) := by
  by_cases hsubject : SubjectFits r
  · obtain hlong | ⟨excess, pending, hpast⟩ := hover
    · exact absurd hsubject hlong
    · obtain ⟨hover, hpending⟩ := messageReach_past hpast
      refine ⟨List.replicate excess 0 ++ filler pending [], fun view target copies hin hrest => ?_⟩
      subst hrest
      have hreaches := decode_reaches
        (d := ⟨target, ⟨view, List.replicate excess 0 ++ filler pending [], copies⟩⟩) hin h hsubject
      dsimp only at hreaches
      rw [hpast] at hreaches
      obtain ⟨answer, d', hrun, -⟩ := hreaches.reached (List.replicate excess 0) []
        List.length_replicate rfl (by omega)
      obtain rfl : answer = true :=
        (decode_answer (d := ⟨target, ⟨view, _, copies⟩⟩) hin h hsubject hrun).mpr
          (not_bodyEmpty_of_past hpast)
      refine ⟨d', hrun, (hreaches.beyond true d' hrun).2, fun hmem => ?_⟩
      rw [SubjectFits] at hsubject
      rwa [subjectOf, take_unread hin hsubject] at hmem
  · have hlong := hsubject
    rw [SubjectFits] at hlong
    have hfront : r.length + (List.replicate (MsgAddressing.size + subjectLengthAt r - r.length)
        (1 : UInt8)).length = MsgAddressing.size + subjectLengthAt r := by
      rw [List.length_replicate]
      omega
    refine ⟨followUp (List.replicate (MsgAddressing.size + subjectLengthAt r - r.length) 1) 1,
      fun view target copies hin hrest => ?_⟩
    subst hrest
    obtain ⟨d', hrun, -⟩ := decode_followUp (d := ⟨target, ⟨view, _, copies⟩⟩) hin h hsubject
      hfront rfl (by decide : 1 < 2 ^ 32)
    refine ⟨d', hrun, (decode_beyond (d := ⟨target, ⟨view, _, copies⟩⟩) hin h hsubject hrun).2,
      fun hmem => ?_⟩
    have hhead := (size_le_of_complete h).1
    have hwhole : (view.rest.drop MsgAddressing.size ++ List.replicate (MsgAddressing.size +
        subjectLengthAt view.rest - view.rest.length) (1 : UInt8)).length =
          subjectLengthAt view.rest := by
      rw [List.length_append, List.length_drop, List.length_replicate]
      omega
    rw [subjectOf, unread_eq hin, List.drop_append_of_le_length hhead, followUp,
      ← List.append_assoc (view.rest.drop _), List.take_left' hwhole] at hmem
    obtain hmem | hmem := List.mem_append.mp hmem
    · rwa [wireSubject, List.take_of_length_le (by rw [List.length_drop]; omega)]
    · exact absurd (List.eq_of_mem_replicate hmem) (by decide)

end Message

end Exposed

end Fastpath
