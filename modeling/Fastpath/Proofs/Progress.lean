import Fastpath.Proofs.Outcomes
import Fastpath.Proofs.Reach

/-!
# Progress at the head of a buffer

Both ends take messages off a buffer until one of them says stop, and both
trust the head to be either taken or waited for.

On the router the head is taken by its declared length, in `size_t`: nine more
than the field says, modulo `2 ^ 64`. One value of the field makes that zero,
and a message of that length is taken without anything being taken. The loop
then finds it again, and hands it on again, for ever. The subject it is handed
on by ends where a zero byte comes, in the buffer or in the memory behind it.

On the client a head that is not taken is waited for, and the wait is for bytes
that complete it. Three kinds of head are left in place that no byte completes:
a bad marker, for which nothing is raised before the decoder sees it; a message
without a field, for which the decoder answers what it answers for an unfinished
one; and a subject longer than the buffer, behind which the memory decides
whether there is a field.
-/

namespace Fastpath

open Fastpath.Lib

namespace Exposed

/-- The decoder never repeats itself for ever. -/
theorem decode_stops {d d' : Decoding} {e : Fault} (hrun : decode.run d = (.error e, d')) :
    e ≠ .diverged := by
  have hlasting : Lasting fun _ => True := ⟨fun _ _ => id, fun _ _ _ => id⟩
  obtain ⟨_, _, hok, -⟩ | ⟨_, _, herror, hne, -⟩ := hlasting.decode d trivial
  · rw [hok] at hrun
    cases hrun
  · rw [herror] at hrun
    cases hrun
    exact hne

/-! ## The router's frame loop -/

/-- The subject at the head of a memory, up to the first zero byte of it. -/
def subjectIn (u : Bytes) : Except Fault (Subject UInt64) :=
  (CString.readFrom (u.drop MsgAddressing.size)).map (.new stringHash)

/-- The router can act upon a message for itself. -/
def Accepts (stray : Stray) (subject : Subject UInt64) (l behind : Bytes) : Prop :=
  ∃ d, decode.run ⟨Message.new, ⟨.ofBytes l, behind, []⟩⟩ = (.ok true, d) ∧
    ∃ subscriptions, handleAdminMessage stray subject d.msg [] = .ok subscriptions

/-- The router takes the message in front of `r`: it is complete, it has a subject, and if the
subject is the router's the message can be acted upon. -/
def Takes (stray : Stray) (behind r : Bytes) : Prop :=
  ∃ n subject, frameStatus r = (.complete, n) ∧ 0 < subjectLengthAt r ∧
    subjectIn (r ++ behind) = .ok subject ∧
    (subject.isAdmin = true → Accepts stray subject (r.take n) (r.drop n ++ behind))

/-- A head that is passed on and takes no bytes: its length field says nine less than
nothing. -/
def Stuck (behind r : Bytes) : Prop :=
  frameStatus r = (.complete, 0) ∧ 0 < subjectLengthAt r ∧
    ∃ subject, subjectIn (r ++ behind) = .ok subject ∧ subject.isAdmin = false

/-- Such a head stands behind messages the router takes. -/
inductive StuckAhead (stray : Stray) (behind : Bytes) : Bytes → Prop where
  | here {r : Bytes} (h : Stuck behind r) : StuckAhead stray behind r
  | later {r : Bytes} (h : Takes stray behind r)
      (hrest : StuckAhead stray behind (r.drop (frameStatus r).2)) : StuckAhead stray behind r

/-- No message for the router decodes from no bytes. -/
theorem not_accepts_nil (stray : Stray) (subject : Subject UInt64) (behind : Bytes) :
    ¬ Accepts stray subject [] behind := by
  rintro ⟨d, hrun, -⟩
  rw [decode_incomplete (n := 0) (Nat.zero_le _) rfl] at hrun
  cases hrun

theorem Takes.size_le {stray : Stray} {behind r : Bytes} (h : Takes stray behind r) :
    MsgAddressing.size ≤ r.length := by
  obtain ⟨n, -, hstatus, -⟩ := h
  exact (size_le_of_complete hstatus).1

theorem Takes.stuck {stray : Stray} {behind r : Bytes} (h : Takes stray behind r)
    (hzero : (frameStatus r).2 = 0) : Stuck behind r := by
  obtain ⟨n, subject, hstatus, hlength, hsubject, hadmin⟩ := h
  rw [hstatus] at hzero
  obtain rfl : n = 0 := hzero
  refine ⟨hstatus, hlength, subject, hsubject, Bool.eq_false_iff.mpr fun h => ?_⟩
  exact not_accepts_nil _ _ _ (hadmin h)

theorem Stuck.takes (stray : Stray) {behind r : Bytes} (h : Stuck behind r) :
    Takes stray behind r := by
  obtain ⟨hstatus, hlength, subject, hsubject, hadmin⟩ := h
  exact ⟨0, subject, hstatus, hlength, hsubject, fun h => by rw [hadmin] at h; cases h⟩

theorem handleAdminMessage_alike (stray : Stray) (subject : Subject UInt64) (message : Message)
    (subs subs' : Subscriptions) :
    (∃ new, handleAdminMessage stray subject message subs = .ok new) ↔
      ∃ new, handleAdminMessage stray subject message subs' = .ok new := by
  rw [handleAdminMessage, handleAdminMessage]
  obtain ⟨new, new', hnew, hnew'⟩ | ⟨e, he, he'⟩ :=
    handleAdminMessage_agrees subject message subs subs'
  · rw [hnew, hnew']
    exact iff_of_true ⟨_, rfl⟩ ⟨_, rfl⟩
  · rw [he, he']
    cases stray message with
    | none => exact iff_of_false (fun ⟨_, h⟩ => by cases h) fun ⟨_, h⟩ => by cases h
    | some found =>
        cases found with
        | none => exact iff_of_true ⟨_, rfl⟩ ⟨_, rfl⟩
        | some data => exact iff_of_true ⟨_, rfl⟩ ⟨_, rfl⟩

theorem handleAdminMessage_stops {stray : Stray} {subject : Subject UInt64} {message : Message}
    {subs : Subscriptions} {e : Fault}
    (h : handleAdminMessage stray subject message subs = .error e) : e ≠ .diverged := by
  rw [handleAdminMessage] at h
  split at h
  · cases h
  · split at h
    · cases h
      exact Fault.noConfusion
    · cases h
    · cases h

section Router

variable {stray : Stray} {source : Nat} {s : Routing}

theorem processAdmin_cases (subject : Subject UInt64) (l behind : Bytes) :
    (Accepts stray subject l behind ∧ ∃ router,
        (processAdmin stray source subject ⟨.ofBytes l, behind, []⟩).run s =
          (.ok .complete, { s with router := router })) ∨
      (¬ Accepts stray subject l behind ∧
        ((processAdmin stray source subject ⟨.ofBytes l, behind, []⟩).run s = (.ok .corrupt, s) ∨
          ∃ e, e ≠ .diverged ∧
            (processAdmin stray source subject ⟨.ofBytes l, behind, []⟩).run s =
              (.error e, s))) := by
  simp only [processAdmin]
  cases hrun : decode.run ⟨Message.new, ⟨.ofBytes l, behind, []⟩⟩ with
  | mk answer d =>
      have hnot : answer ≠ .ok true → ¬ Accepts stray subject l behind := by
        rintro hne ⟨d', hrun', -⟩
        rw [hrun] at hrun'
        cases hrun'
        exact hne rfl
      cases answer with
      | error e =>
          exact .inr ⟨hnot fun h => (by cases h), .inr ⟨e, decode_stops hrun, rfl⟩⟩
      | ok answer =>
          cases answer with
          | false => exact .inr ⟨hnot fun h => (by cases h), .inl rfl⟩
          | true =>
              have halike := handleAdminMessage_alike stray subject d.msg []
                (s.router.peer source).subscriptions
              cases hhandled : handleAdminMessage stray subject d.msg
                  (s.router.peer source).subscriptions with
              | ok subscriptions =>
                  exact .inl ⟨⟨d, hrun, halike.mpr ⟨_, hhandled⟩⟩, _, by simp only [hhandled]; rfl⟩
              | error e =>
                  refine .inr ⟨?_, .inr ⟨e, handleAdminMessage_stops hhandled,
                    by simp only [hhandled]⟩⟩
                  rintro ⟨d', hrun', hok⟩
                  rw [hrun] at hrun'
                  cases hrun'
                  obtain ⟨_, hfalse⟩ := halike.mp hok
                  rw [hhandled] at hfalse
                  cases hfalse

theorem readSubject_run (s : Exposed) (hin : s.view.InRange) :
    (readSubject (s.view.read + MsgAddressing.size)).run s =
      (subjectIn (s.view.rest ++ s.behind), s) := by
  rw [← unread_eq hin, subjectIn, unread, List.drop_drop, readSubject]
  dsimp only
  cases CString.readFrom (s.memory.drop (s.view.read + MsgAddressing.size)) with
  | ok subject => rfl
  | error e => rfl

theorem segment_run (s : Exposed) (hin : s.view.InRange) {n : Nat} (hn : n ≤ s.view.rest.length) :
    (segment n).run s =
      (.ok ⟨.ofBytes (s.view.rest.take n), s.view.rest.drop n ++ s.behind, []⟩,
        s.advanceRead n) := by
  rw [segment]
  dsimp only
  rw [unread_eq hin, List.take_append_of_le_length hn, List.drop_append_of_le_length hn]

/-- What follows the subject. -/
theorem processBuffer_complete (stray : Stray) (source : Nat) {n : Nat}
    (hin : s.source.view.InRange)
    (hstatus : frameStatus s.source.view.rest = (.complete, n)) :
    (processBuffer stray source).run s =
      if 0 < subjectLengthAt s.source.view.rest then
        match subjectIn (s.source.view.rest ++ s.source.behind) with
        | .error e => (.error e, ⟨s.router, s.source.mark⟩)
        | .ok subject =>
            if subject.isAdmin then
              (do
                let status ← processAdmin stray source subject
                  ⟨.ofBytes (s.source.view.rest.take n),
                    s.source.view.rest.drop n ++ s.source.behind, []⟩
                onRouted (Exec.modify mark)
                pure status).run ⟨s.router, s.source.mark.advanceRead n⟩
            else
              (.ok .complete, ⟨s.router.messageHandler source subject (s.source.view.rest.take n),
                (s.source.advanceRead n).mark⟩)
      else (.ok .corrupt, ⟨s.router, s.source.mark⟩) := by
  have hmark : (onRouted (Exec.modify mark)).run s = (.ok (), ⟨s.router, s.source.mark⟩) := rfl
  have haddr : (onRouted addressingDetails).run ⟨s.router, s.source.mark⟩ = _ :=
    Exec.zoom_ok (addressingDetails_complete (s := s.source.mark) hin hstatus)
  have hreset : (onRouted (Exec.modify resetRead)).run
      ⟨s.router, s.source.mark.advanceRead
        (MsgAddressing.size + subjectLengthAt s.source.view.rest)⟩ =
      (.ok (), ⟨s.router, s.source.mark⟩) := rfl
  rw [processBuffer, Exec.bind_ok hmark, Exec.bind_ok haddr]
  dsimp only
  refine (Exec.bind_ok hreset).trans ?_
  by_cases hpos : 0 < subjectLengthAt s.source.view.rest
  · have hread := readSubject_run s.source.mark hin
    have hsegment := segment_run s.source.mark hin (size_le_of_complete hstatus).2
    rw [if_pos hpos]
    refine (congrArg (fun x : Exec Fault Routing DecodeStatus => x.run _) (if_pos hpos)).trans ?_
    change (readSubject _).run s.source.mark =
      (subjectIn (s.source.view.rest ++ s.source.behind), s.source.mark) at hread
    cases hsubject : subjectIn (s.source.view.rest ++ s.source.behind) with
    | error e =>
        rw [hsubject] at hread
        exact Exec.bind_error (Exec.zoom_error (s := (⟨s.router, s.source.mark⟩ : Routing)) hread)
    | ok subject =>
        rw [hsubject] at hread
        refine (Exec.bind_ok (Exec.zoom_ok (s := (⟨s.router, s.source.mark⟩ : Routing))
          hread)).trans ?_
        refine (Exec.bind_ok (Exec.zoom_ok (s := (⟨s.router, s.source.mark⟩ : Routing))
          hsegment)).trans ?_
        dsimp only
        split
        · rfl
        · rfl
  · rw [if_neg hpos]
    exact congrArg (fun x : Exec Fault Routing DecodeStatus => x.run _) (if_neg hpos)

theorem processBuffer_other (stray : Stray) (source : Nat) {status : DecodeStatus} {n : Nat}
    (hin : s.source.view.InRange) (hstatus : frameStatus s.source.view.rest = (status, n))
    (hne : status ≠ .complete) :
    (processBuffer stray source).run s = (.ok status, ⟨s.router, s.source.mark⟩) := by
  have hmark : (onRouted (Exec.modify mark)).run s = (.ok (), ⟨s.router, s.source.mark⟩) := rfl
  have haddr : (onRouted addressingDetails).run ⟨s.router, s.source.mark⟩ = _ :=
    Exec.zoom_ok (addressingDetails_other (s := s.source.mark) hin hstatus hne)
  rw [processBuffer, Exec.bind_ok hmark, Exec.bind_ok haddr]
  cases status with
  | complete => exact absurd rfl hne
  | incomplete | corrupt => rfl

/-- A call takes the message in front by its declared length, or stops there. -/
theorem processBuffer_cases (stray : Stray) (source : Nat) (hin : s.source.view.InRange) :
    (Takes stray s.source.behind s.source.view.rest ∧
        (frameStatus s.source.view.rest).2 ≤ s.source.view.rest.length ∧
        ∃ router, (processBuffer stray source).run s = (.ok .complete,
          ⟨router, (s.source.advanceRead (frameStatus s.source.view.rest).2).mark⟩)) ∨
      (¬ Takes stray s.source.behind s.source.view.rest ∧
        ((∃ status s', status ≠ .complete ∧ (processBuffer stray source).run s = (.ok status, s')) ∨
          ∃ e s', e ≠ .diverged ∧ (processBuffer stray source).run s = (.error e, s'))) := by
  obtain ⟨status, n, hstatus⟩ : ∃ status n, frameStatus s.source.view.rest = (status, n) :=
    ⟨_, _, rfl⟩
  have htakes : ∀ {subject}, subjectIn (s.source.view.rest ++ s.source.behind) = .ok subject →
      Takes stray s.source.behind s.source.view.rest → subject.isAdmin = true →
      Accepts stray subject (s.source.view.rest.take n)
        (s.source.view.rest.drop n ++ s.source.behind) := by
    rintro subject hsubject ⟨n', subject', hstatus', -, hsubject', hadmin⟩
    rw [hstatus] at hstatus'
    rw [hsubject] at hsubject'
    cases hstatus'
    cases hsubject'
    exact hadmin
  rw [hstatus]
  by_cases hcomplete : status = .complete
  · subst hcomplete
    have hle := (size_le_of_complete hstatus).2
    rw [processBuffer_complete stray source hin hstatus]
    by_cases hpos : 0 < subjectLengthAt s.source.view.rest
    · rw [if_pos hpos]
      cases hsubject : subjectIn (s.source.view.rest ++ s.source.behind) with
      | error e =>
          refine .inr ⟨?_, .inr ⟨e, _, ?_, rfl⟩⟩
          · rintro ⟨_, subject, -, -, hok, -⟩
            rw [hsubject] at hok
            cases hok
          · rw [subjectIn, CString.readFrom] at hsubject
            split at hsubject
            · cases hsubject
            · cases hsubject
              exact Fault.noConfusion
      | ok subject =>
          dsimp only
          by_cases hadmin : subject.isAdmin = true
          · rw [if_pos hadmin]
            obtain ⟨haccepts, router, hrun⟩ | ⟨hnot, hrun | ⟨e, he, hrun⟩⟩ :=
              @processAdmin_cases stray source ⟨s.router, s.source.mark.advanceRead n⟩ subject
                (s.source.view.rest.take n) (s.source.view.rest.drop n ++ s.source.behind)
            · exact .inl ⟨⟨n, subject, hstatus, hpos, hsubject, fun _ => haccepts⟩, hle, router,
                Exec.bind_ok hrun⟩
            · exact .inr ⟨fun h => hnot (htakes hsubject h hadmin),
                .inl ⟨.corrupt, _, DecodeStatus.noConfusion, Exec.bind_ok hrun⟩⟩
            · exact .inr ⟨fun h => hnot (htakes hsubject h hadmin),
                .inr ⟨e, _, he, Exec.bind_error hrun⟩⟩
          · rw [if_neg hadmin]
            exact .inl ⟨⟨n, subject, hstatus, hpos, hsubject, fun h => absurd h hadmin⟩,
              hle, _, rfl⟩
    · rw [if_neg hpos]
      refine .inr ⟨?_, .inl ⟨.corrupt, _, DecodeStatus.noConfusion, rfl⟩⟩
      rintro ⟨_, _, -, hlength, -⟩
      exact hpos hlength
  · refine .inr ⟨?_, .inl ⟨status, _, hcomplete, processBuffer_other stray source hin hstatus
      hcomplete⟩⟩
    rintro ⟨_, _, hstatus', -⟩
    rw [hstatus] at hstatus'
    cases hstatus'
    exact hcomplete rfl

/-- Every call that finds a complete message moves the cursor. -/
def Advances (stray : Stray) (source : Nat) (s : Routing) : Prop :=
  ∀ s', (processBuffer stray source).run s = (.ok .complete, s') →
    s.source.view.read < s'.source.view.read

/-- The inner loop of `data_handler` is over after at most so many rounds. -/
def Halts (stray : Stray) (source : Nat) (s : Routing) (rounds : Nat) : Prop :=
  ((Exec.untilSome .diverged (processRound stray source) rounds).run s).1 ≠ .error .diverged

theorem advances_iff (hin : s.source.view.InRange) :
    Advances stray source s ↔ ¬ Stuck s.source.behind s.source.view.rest := by
  obtain ⟨htakes, -, router, hrun⟩ | ⟨hnot, hstop⟩ := processBuffer_cases stray source hin
  · refine ⟨fun h hstuck => ?_, fun hnot s' hs' => ?_⟩
    · have hlt := h _ hrun
      rw [hstuck.1] at hlt
      exact Nat.lt_irrefl _ hlt
    · rw [hrun] at hs'
      cases hs'
      show s.source.view.read < s.source.view.read + _
      by_contra hstays
      exact hnot (htakes.stuck (by omega))
  · refine iff_of_true (fun s' hs' => ?_) fun hstuck => hnot (hstuck.takes stray)
    obtain ⟨status, s'', hne, hrun⟩ | ⟨e, s'', -, hrun⟩ := hstop
    · rw [hrun] at hs'
      cases hs'
      exact absurd rfl hne
    · rw [hrun] at hs'
      cases hs'

/-- A round goes on behind a message that is taken, and stops at everything else. -/
theorem processRound_cases (stray : Stray) (source : Nat) (hin : s.source.view.InRange) :
    (Takes stray s.source.behind s.source.view.rest ∧ ∃ s',
        (processRound stray source).run s = (.ok none, s') ∧ s'.source.view.InRange ∧
        s'.source.behind = s.source.behind ∧
        s'.source.view.rest = s.source.view.rest.drop (frameStatus s.source.view.rest).2) ∨
      (¬ Takes stray s.source.behind s.source.view.rest ∧
        ((∃ status s', (processRound stray source).run s = (.ok (some status), s')) ∨
          ∃ e s', (processRound stray source).run s = (.error e, s') ∧ e ≠ .diverged)) := by
  obtain ⟨htakes, hle, router, hrun⟩ | ⟨hnot, hstop⟩ := processBuffer_cases stray source hin
  · exact .inl ⟨htakes, _, Exec.bind_ok hrun, hin.advanceRead hle, rfl,
      ByteStorage.rest_advanceRead s.source.view _⟩
  · refine .inr ⟨hnot, ?_⟩
    obtain ⟨status, s', hne, hrun⟩ | ⟨e, s', he, hrun⟩ := hstop
    · cases status with
      | complete => exact absurd rfl hne
      | incomplete => exact .inl ⟨.incomplete, s', Exec.bind_ok hrun⟩
      | corrupt => exact .inl ⟨.corrupt, s', Exec.bind_ok hrun⟩
    · exact .inr ⟨e, s', Exec.bind_error hrun, he⟩

theorem StuckAhead.taken {behind r : Bytes} (h : StuckAhead stray behind r) :
    Takes stray behind r ∧ StuckAhead stray behind (r.drop (frameStatus r).2) := by
  cases h with
  | here h =>
      refine ⟨h.takes stray, ?_⟩
      rw [h.1, List.drop_zero]
      exact .here h
  | later h hrest => exact ⟨h, hrest⟩

/-- However many rounds the loop is given, it wants another one. -/
theorem StuckAhead.not_halts (h : StuckAhead stray s.source.behind s.source.view.rest)
    (hin : s.source.view.InRange) (rounds : Nat) : ¬ Halts stray source s rounds := by
  induction rounds generalizing s with
  | zero => exact fun hhalts => hhalts rfl
  | succ rounds ih =>
      obtain ⟨htakes, hrest⟩ := h.taken
      obtain ⟨-, s', hrun, hin', hbehind, hview⟩ | ⟨hnot, -⟩ := processRound_cases stray source hin
      · rw [Halts, Exec.untilSome, Exec.bind_ok hrun]
        refine ih ?_ hin'
        rwa [hview, hbehind]
      · exact absurd htakes hnot

/-- Otherwise every round but the last takes a byte. The last sixteen bytes are one
message at most, so there is no more than one round to a byte. -/
theorem halts_of_not_stuckAhead (h : ¬ StuckAhead stray s.source.behind s.source.view.rest)
    (hin : s.source.view.InRange) {rounds : Nat} (hpos : 0 < rounds)
    (henough : s.source.view.rest.length < rounds + 15) : Halts stray source s rounds := by
  induction rounds generalizing s with
  | zero => exact absurd hpos (Nat.lt_irrefl 0)
  | succ rounds ih =>
      rw [Halts, Exec.untilSome]
      obtain ⟨htakes, s', hrun, hin', hbehind, hview⟩ |
        ⟨-, ⟨status, s', hrun⟩ | ⟨e, s', hrun, he⟩⟩ := processRound_cases stray source hin
      · have hne : (frameStatus s.source.view.rest).2 ≠ 0 := fun hzero =>
          h (.here (htakes.stuck hzero))
        have hsize := htakes.size_le
        rw [MsgAddressing.size] at hsize
        rw [Exec.bind_ok hrun]
        refine ih (fun hahead => h (.later htakes ?_)) hin' (by omega) ?_
        · rwa [hview, hbehind] at hahead
        · rw [hview, List.length_drop]
          omega
      · rw [Exec.bind_ok hrun]
        exact fun hfalse => (by cases hfalse)
      · rw [Exec.bind_error hrun]
        exact fun hfalse => he (Except.error.inj hfalse)

end Router

/-- A call that finds a complete message moves the cursor if and only if the head is not
a stuck one, and the loop over a buffer with something in it is over after as many rounds
as there are bytes if and only if it does not come to one. -/
theorem progress_iff (stray : Stray) (source : Nat) {s : Routing} (hin : s.source.view.InRange)
    (hread : s.source.view.rest ≠ []) :
    (Advances stray source s ↔ ¬ Stuck s.source.behind s.source.view.rest) ∧
      (Halts stray source s s.source.view.rest.length ↔
        ¬ StuckAhead stray s.source.behind s.source.view.rest) := by
  have hpos := List.length_pos_iff.mpr hread
  refine ⟨advances_iff hin, fun hhalts hahead => hahead.not_halts hin _ hhalts, fun h => ?_⟩
  exact halts_of_not_stuckAhead h hin hpos (by omega)

theorem probe_progress :
    let s : Routing :=
      ⟨Bootstrap.start [1] (fun _ => []) fun _ _ => 0, ⟨.ofBytes probe.wire, [], []⟩⟩
    Advances (fun _ => none) 1 s ∧ Halts (fun _ => none) 1 s s.source.view.rest.length ∧
      0 < s.source.view.rest.length := by
  intro s
  have hstatus : frameStatus s.source.view.rest = (.complete, s.source.view.rest.length) := by
    decide +kernel
  have hstuck : ¬ Stuck s.source.behind s.source.view.rest := by
    rintro ⟨hzero, -⟩
    rw [hstatus] at hzero
    exact absurd hzero (by decide)
  obtain ⟨hadvances, hhalts⟩ := progress_iff (fun _ => none) 1 (s := s) (Nat.zero_le _) (by decide)
  refine ⟨hadvances.mpr hstuck, hhalts.mpr fun hahead => ?_, by decide⟩
  cases hahead with
  | here h => exact hstuck h
  | later _ hrest =>
      rw [hstatus, List.drop_length] at hrest
      exact absurd hrest.taken.1.size_le (by decide)

/-- Length field `2 ^ 64 - 9`, no flag clear, subject `A`. -/
def stuckHead : Bytes :=
  [1, 247, 255, 255, 255, 255, 255, 255, 255, 255, 0, 0, 0, 0, 2, 0, 65, 0]

/-- With its terminator, and without it in front of a zero byte that was in the memory before. -/
theorem stuckHead_stuck :
    let s (view behind : Bytes) : Routing :=
      ⟨Bootstrap.start [1] (fun _ => []) fun _ _ => 0, ⟨.ofBytes view, behind, []⟩⟩
    (¬ Advances (fun _ => none) 1 (s stuckHead []) ∧
        ∀ rounds, ¬ Halts (fun _ => none) 1 (s stuckHead []) rounds) ∧
      ¬ Advances (fun _ => none) 1 (s (stuckHead.take 17) [0]) ∧
        ∀ rounds, ¬ Halts (fun _ => none) 1 (s (stuckHead.take 17) [0]) rounds := by
  intro s
  have hwhole : Stuck [] stuckHead :=
    ⟨by decide, by decide, .new stringHash (.ofArray [65, 0]), rfl, by decide⟩
  have hcut : Stuck [0] (stuckHead.take 17) :=
    ⟨by decide, by decide, .new stringHash (.ofArray [65, 0]), rfl, by decide⟩
  exact ⟨⟨fun h => (advances_iff (s := s stuckHead []) (Nat.zero_le _)).mp h hwhole,
      (StuckAhead.here hwhole).not_halts (s := s stuckHead []) (Nat.zero_le _)⟩,
    fun h => (advances_iff (s := s (stuckHead.take 17) [0]) (Nat.zero_le _)).mp h hcut,
    (StuckAhead.here hcut).not_halts (s := s (stuckHead.take 17) [0]) (Nat.zero_le _)⟩

/-! ## The client's receive loop -/

/-- A complete message every part of which is where it is declared to be, whatever the
number of its fields; it takes `n` bytes. -/
structure WellFormed (r : Bytes) (n : Nat) : Prop where
  complete : (frameStatus r).1 = .complete
  subject : SubjectFits r
  header : MsgHeader.size ≤ (bodyAt r).length
  marker : leNat ((bodyAt r).take 1) = bodyFlag
  fields : ∃ k, fieldsReach r.length (fieldCountAt (bodyAt r)) ((bodyAt r).drop MsgHeader.size) =
    .within k ∧ n = MsgAddressing.size + subjectLengthAt r + (MsgHeader.size + k)

theorem WellFormed.reach {r : Bytes} {n : Nat} (h : WellFormed r n)
    (hfield : ¬ BodyEmpty (bodyAt r)) : messageReach r = .within n := by
  obtain ⟨k, hfields, rfl⟩ := h.fields
  have hbody : bodyReach (fieldsReach r.length) (bodyAt r) = .within (MsgHeader.size + k) := by
    rw [bodyReach, if_neg fun hshort => hfield (.inl hshort), if_neg (not_not_intro h.marker)]
    simp only [Reach.followed, hfields]
  simp only [messageReach, Reach.followed, hbody]

/-- One call of `processData` leaves behind it a message that is finished by more bytes,
or an application that knows better. -/
structure NeverStalls (keeps : Nat → Bool) (s : Receiving) : Prop where
  waiting : ∀ s', (processData keeps).run s = (.ok false, s') →
    ¬ TCPTransport.Raised s.transport s'.transport →
    ∃ n, (haveCompleteMessage.run s'.source).1 = .ok (.incomplete, n)
  marker : ∀ n, (haveCompleteMessage.run s.source).1 = .ok (.corrupt, n) →
    ∀ answer s', (processData keeps).run s = (.ok answer, s') →
      TCPTransport.Raised s.transport s'.transport
  consumed : ∀ n, WellFormed s.source.view.rest n →
    ∃ s', (processData keeps).run s = (.ok true, s') ∧
      s'.source.view.rest = s.source.view.rest.drop n

/-- A head with a good marker that, if it is all there, has its subject and a field. -/
def Digestible (r : Bytes) : Prop :=
  (frameStatus r).1 ≠ .corrupt ∧
    ((frameStatus r).1 = .complete → SubjectFits r ∧ ¬ BodyEmpty (bodyAt r))

instance : DecidablePred Digestible := fun r =>
  inferInstanceAs (Decidable ((frameStatus r).1 ≠ .corrupt ∧
    ((frameStatus r).1 = .complete → SubjectFits r ∧ ¬ BodyEmpty (bodyAt r))))

theorem not_raised_of_eq {t t' : TCPTransport} (h : t'.notifications = t.notifications) :
    ¬ TCPTransport.Raised t t' := by
  intro h
  obtain ⟨told, htold, hmem⟩ := h
  rw [h] at htold
  rw [List.self_eq_append_right.mp htold] at hmem
  cases hmem

section Client

variable {keeps : Nat → Bool} {s : Receiving} {n : Nat}

theorem haveComplete_zoom (hin : s.source.view.InRange) :
    (Exec.zoom Receiving.source (fun source s => { s with source := source })
      haveCompleteMessage).run s = (.ok (frameStatus s.source.view.rest), s) :=
  Exec.zoom_ok (haveCompleteMessage_run hin)

theorem processData_other (keeps : Nat → Bool) (hin : s.source.view.InRange)
    (h : (frameStatus s.source.view.rest).1 ≠ .complete) :
    (processData keeps).run s = (.ok false, s) := by
  rw [processData, Exec.bind_ok (haveComplete_zoom hin)]
  cases hstatus : frameStatus s.source.view.rest with
  | mk status n =>
      rw [hstatus] at h
      cases status with
      | complete => exact absurd rfl h
      | incomplete | corrupt => rfl

/-- What a call makes of what the decoder makes of the head. -/
def Settles (keeps : Nat → Bool) (s : Receiving) : Except Fault Bool × Decoding → Prop
  | (.ok true, d) => ∃ t, (processData keeps).run s = (.ok true, ⟨t, d.source⟩)
  | (.ok false, d) => ∃ t, (processData keeps).run s = (.ok false, ⟨t, d.source.resetRead⟩) ∧
      t.notifications = s.transport.notifications
  | (.error (.exception _), d) => ∃ t, (processData keeps).run s = (.ok false, ⟨t, d.source⟩) ∧
      TCPTransport.Raised s.transport t
  | (.error _, _) => ∃ e s', (processData keeps).run s = (.error e, s')

theorem processData_settles (keeps : Nat → Bool) (hin : s.source.view.InRange)
    (hstatus : frameStatus s.source.view.rest = (.complete, n)) :
    ∃ old : Message, Settles keeps s (decode.run ⟨old.clear, s.source.mark⟩) := by
  obtain ⟨i, p, old, halloc, hold⟩ := Pool.allocate_ok s.transport.pool
  have hzoom : (Exec.zoom (fun s : Receiving => s.transport.pool)
      (fun p s => { s with transport := { s.transport with pool := p } }) Pool.allocate).run s =
      (.ok i, ⟨{ s.transport with pool := p }, s.source⟩) := Exec.zoom_ok halloc
  have hrun : (processData keeps).run s =
      (decodeInto keeps i).run ⟨{ s.transport with pool := p }, s.source.mark⟩ := by
    rw [processData, Exec.bind_ok (haveComplete_zoom hin), hstatus]
    dsimp only
    rw [Exec.bind_ok hzoom, Exec.bind_ok (Exec.modify_run _ _)]
  simp only [decodeInto, hold] at hrun
  refine ⟨old, ?_⟩
  cases hdecode : decode.run ⟨old.clear, s.source.mark⟩ with
  | mk answer d =>
      rw [hdecode] at hrun
      cases answer with
      | ok answer =>
          cases answer with
          | true => exact ⟨_, hrun⟩
          | false => exact ⟨_, hrun, rfl⟩
      | error e =>
          cases e with
          | exception what =>
              refine ⟨_, hrun, ?_⟩
              obtain ⟨told, htold⟩ := TCPTransport.disconnect_notifications
                (({ s.transport with pool := p.store i d.msg } : TCPTransport).notify
                  .corruptMessage)
              refine ⟨.corruptMessage :: told, ?_, List.mem_cons_self⟩
              show (TCPTransport.disconnect _).notifications = _
              rw [htold]
              show (s.transport.notifications ++ [.corruptMessage]) ++ told = _
              rw [List.append_assoc]
              rfl
          | _ => exact ⟨_, _, hrun⟩

/-- A head the decoder finds no field in stays where it is. -/
theorem not_neverStalls (hin : s.source.view.InRange)
    (hstatus : frameStatus s.source.view.rest = (.complete, n))
    (hnone : ∀ old : Message, ∃ d, decode.run ⟨old.clear, s.source.mark⟩ = (.ok false, d)) :
    ¬ NeverStalls keeps s := by
  intro h
  obtain ⟨old, hsettles⟩ := processData_settles keeps hin hstatus
  obtain ⟨d, hdecode⟩ := hnone old
  rw [hdecode] at hsettles
  obtain ⟨t, hrun, hsame⟩ := hsettles
  obtain ⟨n', hwaiting⟩ := h.waiting _ hrun (not_raised_of_eq hsame)
  have hview := (lasting_view s.source.view.bytes s.source.view.read).decode.ok
    (s := ⟨old.clear, s.source.mark⟩) ⟨rfl, rfl⟩ hdecode
  have hreset : d.source.resetRead.view = s.source.view.mark := by
    obtain ⟨hbytes, hmarked⟩ := hview
    simp only [resetRead, ByteStorage.resetRead, ByteStorage.mark, hbytes, hmarked]
  have hin' : d.source.resetRead.view.InRange := by
    rw [hreset]
    exact hin
  rw [haveCompleteMessage_run hin', hreset] at hwaiting
  have hfalse := congrArg Prod.fst (Except.ok.inj hwaiting)
  change (frameStatus s.source.view.rest).1 = _ at hfalse
  rw [hstatus] at hfalse
  cases hfalse

theorem Digestible.neverStalls (h : Digestible s.source.view.rest) (hin : s.source.view.InRange) :
    NeverStalls keeps s := by
  obtain ⟨status, n, hstatus⟩ : ∃ status n, frameStatus s.source.view.rest = (status, n) :=
    ⟨_, _, rfl⟩
  have hhave := haveCompleteMessage_run hin
  cases status with
  | corrupt => exact absurd (congrArg Prod.fst hstatus) h.1
  | incomplete =>
      have hrun := processData_other keeps hin (by rw [hstatus]; exact DecodeStatus.noConfusion)
      refine ⟨fun s' hs' _ => ?_, fun n hcorrupt => ?_, fun n hformed => ?_⟩
      · rw [hrun] at hs'
        cases hs'
        exact ⟨n, by rw [hhave, hstatus]⟩
      · rw [hhave, hstatus] at hcorrupt
        cases hcorrupt
      · have hfalse := hformed.complete
        rw [hstatus] at hfalse
        cases hfalse
  | complete =>
      obtain ⟨hsubject, hfield⟩ := h.2 (congrArg Prod.fst hstatus)
      obtain ⟨old, hsettles⟩ := processData_settles keeps hin hstatus
      have hanswer : ∀ {answer d}, decode.run ⟨old.clear, s.source.mark⟩ = (.ok answer, d) →
          (answer = true ↔ ¬ BodyEmpty (bodyAt s.source.view.rest)) :=
        fun hrun => decode_answer (d := ⟨old.clear, s.source.mark⟩) hin hstatus hsubject hrun
      have hreaches := decode_reaches (d := ⟨old.clear, s.source.mark⟩) hin hstatus hsubject
      refine ⟨fun s' hs' hraised => ?_, fun n hcorrupt => ?_, fun n hformed => ?_⟩
      · cases hdecode : decode.run ⟨old.clear, s.source.mark⟩ with
        | mk answer d =>
            rw [hdecode] at hsettles
            cases answer with
            | ok answer =>
                obtain rfl : answer = true := (hanswer hdecode).mpr hfield
                obtain ⟨t, hrun⟩ := hsettles
                rw [hrun] at hs'
                cases hs'
            | error e =>
                cases e with
                | exception what =>
                    obtain ⟨t, hrun, htold⟩ := hsettles
                    rw [hrun] at hs'
                    cases hs'
                    exact absurd htold hraised
                | _ =>
                    obtain ⟨e, s'', hrun⟩ := hsettles
                    rw [hrun] at hs'
                    cases hs'
      · rw [hhave, hstatus] at hcorrupt
        cases hcorrupt
      · change Reaches _ _ (messageReach s.source.view.rest) at hreaches
        rw [hformed.reach hfield] at hreaches
        obtain ⟨-, answer, d, hdecode, hstep⟩ := hreaches
        obtain rfl : answer = true := (hanswer hdecode).mpr hfield
        rw [hdecode] at hsettles
        obtain ⟨t, hrun⟩ := hsettles
        exact ⟨_, hrun, hstep.rest⟩

end Client

/-- Whatever is in the memory behind the buffer, `processData` takes the head, waits for the end
of it or raises it, if and only if its marker is good and, where it is complete, its subject lies
in the buffer and a field behind it. -/
theorem neverStalls_iff (keeps : Nat → Bool) (transport : TCPTransport) {view : ByteStorage}
    (hin : view.InRange) :
    (∀ behind, NeverStalls keeps ⟨transport, ⟨view, behind, []⟩⟩) ↔ Digestible view.rest := by
  refine ⟨fun h => ⟨fun hcorrupt => ?_, fun hcomplete => ?_⟩, fun h behind => h.neverStalls hin⟩
  · have hrun := processData_other keeps (s := ⟨transport, ⟨view, [], []⟩⟩) hin
      (by rw [hcorrupt]; exact DecodeStatus.noConfusion)
    refine not_raised_of_eq rfl ((h []).marker (frameStatus view.rest).2 ?_ _ _ hrun)
    rw [haveCompleteMessage_run (s := ⟨view, [], []⟩) hin, ← hcorrupt]
  · obtain ⟨n, hstatus⟩ : ∃ n, frameStatus view.rest = (.complete, n) :=
      ⟨_, Prod.ext hcomplete rfl⟩
    have hsubject : SubjectFits view.rest := by
      by_contra hlong
      obtain ⟨front, hfront⟩ : ∃ front : Bytes, view.rest.length + front.length =
          MsgAddressing.size + subjectLengthAt view.rest := by
        rw [SubjectFits] at hlong
        refine ⟨List.replicate (MsgAddressing.size + subjectLengthAt view.rest -
          view.rest.length) 0, ?_⟩
        rw [List.length_replicate]
        omega
      refine not_neverStalls hin hstatus (fun old => ?_) (h (followUp front 0))
      obtain ⟨d', hrun, -⟩ := decode_followUp
        (d := ⟨old.clear, ⟨view.mark, followUp front 0, []⟩⟩) hin hstatus hlong hfront rfl
        (by decide : 0 < 2 ^ 32)
      exact ⟨d', hrun⟩
    refine ⟨hsubject, fun hempty => ?_⟩
    refine not_neverStalls hin hstatus (fun old => ?_) (h [])
    obtain ⟨hin', hrest, hrun⟩ := decode_addressed
      (d := ⟨old.clear, ⟨view.mark, [], []⟩⟩) hin hstatus hsubject
    obtain ⟨d', hbody⟩ := decodeBody_empty hin' (hrest ▸ hempty)
    exact ⟨d', hrun.trans hbody⟩

theorem probe_neverStalls :
    NeverStalls (fun _ => false) ⟨.new fun _ _ => 0, ⟨.ofBytes probe.wire, [2, 0], []⟩⟩ :=
  (neverStalls_iff _ _ (Nat.zero_le _)).mpr (by decide) [2, 0]

/-- Twenty-four bytes, and a subject that is declared longer than what is left of them. -/
def overlongSubject : Bytes :=
  [1, 15, 0, 0, 0, 0, 0, 0, 0, 255, 0, 0, 0, 0, 9, 0] ++ List.replicate 8 65

/-- Sixteen zero bytes, a message without a field, and `overlongSubject` in front of memory that
reads as the end of a subject and an empty body: each of them is neither taken nor raised, and
stays at the head. -/
theorem stalled_heads :
    let s (view behind : Bytes) : Receiving :=
      ⟨.new fun _ _ => 0, ⟨.ofBytes view, behind, []⟩⟩
    ¬ NeverStalls (fun _ => false) (s (List.replicate 16 0) []) ∧
      ¬ NeverStalls (fun _ => false) (s Message.new.wire []) ∧
      ¬ NeverStalls (fun _ => false) (s overlongSubject [0, 2, 0, 0, 0, 0]) ∧
      Message.new.wire.length = 22 ∧
      (haveCompleteMessage.run (s Message.new.wire []).source).1 = .ok (.complete, 22) := by
  intro s
  refine ⟨fun h => ?_, ?_, ?_, by decide, by decide⟩
  · have hrun := processData_other (fun _ => false) (s := s (List.replicate 16 0) [])
      (Nat.zero_le _) (by decide)
    exact not_raised_of_eq rfl (h.marker 0 (by decide) _ _ hrun)
  · have hstatus : frameStatus (s Message.new.wire []).source.view.rest = (.complete, 22) := by
      decide
    refine not_neverStalls (Nat.zero_le _) hstatus fun old => ?_
    obtain ⟨hin, hrest, hrun⟩ := decode_addressed
      (d := ⟨old.clear, (s Message.new.wire []).source.mark⟩) (Nat.zero_le _) hstatus
      (show SubjectFits Message.new.wire by decide)
    obtain ⟨d', hbody⟩ := decodeBody_empty hin
      (hrest ▸ (show BodyEmpty (bodyAt Message.new.wire) by decide))
    exact ⟨d', hrun.trans hbody⟩
  · have hstatus : frameStatus (s overlongSubject [0, 2, 0, 0, 0, 0]).source.view.rest =
        (.complete, 24) := by
      decide
    refine not_neverStalls (Nat.zero_le _) hstatus fun old => ?_
    obtain ⟨d', hrun, -⟩ := decode_followUp
      (d := ⟨old.clear, (s overlongSubject [0, 2, 0, 0, 0, 0]).source.mark⟩)
      (Nat.zero_le _) hstatus (show ¬ SubjectFits overlongSubject by decide)
      (show overlongSubject.length + ([0] : Bytes).length = 16 + subjectLengthAt overlongSubject by
        decide)
      (show [0, 2, 0, 0, 0, 0] = followUp [0] 0 from rfl) (by decide)
    exact ⟨d', hrun⟩

end Exposed

end Fastpath
