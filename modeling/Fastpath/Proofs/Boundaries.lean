import Fastpath.Lib.Splits
import Fastpath.Proofs.Progress

/-!
# Where a message ends

There are two answers. The router believes the length field in front of the
message and steps over so many bytes; the client steps over the parts one by
one, and is where the last of them ends. Nothing compares the two.

The second answer is a sum, of what the lengths inside a message say that its
parts take, as long as all the parts are in the buffer. Where one of them goes
on behind it, the client is past the end, and there no length field can have
meant to be. A stream is split alike by both ends exactly as long as each
message both take says the same twice.
-/

namespace Fastpath

open Fastpath.Lib

/-- A message with a field has all its parts in the buffer, or is refused for one that is not,
and they take what its length field says. -/
def Honest (r : Bytes) : Prop :=
  (frameStatus r).1 = .complete → SubjectFits r ∧
    (BodyEmpty (bodyAt r) ∨ (messageReach r).Stays (· = (frameStatus r).2))

instance : DecidablePred Honest := fun r =>
  inferInstanceAs (Decidable ((frameStatus r).1 = .complete → SubjectFits r ∧
    (BodyEmpty (bodyAt r) ∨ (messageReach r).Stays (· = (frameStatus r).2))))

namespace Exposed

/-- A message with a field that says one thing, with all its parts in the buffer. -/
structure Agreed (r : Bytes) : Prop where
  complete : (frameStatus r).1 = .complete
  subject : SubjectFits r
  field : ¬ BodyEmpty (bodyAt r)
  parts : messageReach r = .within (frameStatus r).2

theorem complete_of_not_honest {r : Bytes} (h : ¬ Honest r) : (frameStatus r).1 = .complete := by
  by_contra hother
  exact h fun hcomplete => absurd hcomplete hother

/-! ## One buffer -/

/-- Where `decode` answers that it has a message, its cursor has come as far as
`have_complete_message` said. -/
def DecodesToEnd (target : Message) (s : Exposed) : Prop :=
  ∀ d n, decode.run ⟨target, s⟩ = (.ok true, d) →
    (haveCompleteMessage.run s).1 = .ok (.complete, n) → d.source.view.read = s.view.read + n

theorem Agreed.run {d : Decoding} (h : Agreed d.source.view.rest) (hin : d.source.view.InRange) :
    ∃ d', decode.run d = (.ok true, d') ∧
      Stepped d.source (frameStatus d.source.view.rest).2 d'.source := by
  have hstatus := frameStatus_of_complete h.complete
  have hreaches := decode_reaches hin hstatus h.subject
  rw [h.parts] at hreaches
  obtain ⟨-, answer, d', hrun, hstep⟩ := hreaches
  obtain rfl : answer = true := (decode_answer hin hstatus h.subject hrun).mpr h.field
  exact ⟨d', hrun, hstep⟩

theorem Honest.agreed {d d' : Decoding} (h : Honest d.source.view.rest)
    (hin : d.source.view.InRange) (hcomplete : (frameStatus d.source.view.rest).1 = .complete)
    (hrun : decode.run d = (.ok true, d')) : Agreed d.source.view.rest := by
  have hstatus := frameStatus_of_complete hcomplete
  obtain ⟨hsubject, hparts⟩ := h hcomplete
  have hfield := (decode_answer hin hstatus hsubject hrun).mp rfl
  have hreaches := decode_reaches hin hstatus hsubject
  refine ⟨hcomplete, hsubject, hfield, ?_⟩
  obtain hempty | hstays := hparts
  · exact absurd hempty hfield
  · cases hreach : messageReach d.source.view.rest with
    | within k =>
        rw [hreach] at hstays
        exact congrArg Reach.within hstays
    | refused =>
        rw [hreach] at hreaches
        obtain ⟨e, d'', hrun'⟩ := hreaches
        rw [hrun] at hrun'
        cases hrun'
    | past excess pending =>
        rw [hreach] at hstays
        exact absurd hstays id

theorem Honest.decodesToEnd {view : ByteStorage} (h : Honest view.rest) (hin : view.InRange)
    (target : Message) (behind : Bytes) : DecodesToEnd target ⟨view, behind, []⟩ := by
  intro d n hrun hstatus
  rw [haveCompleteMessage_run (s := ⟨view, behind, []⟩) hin] at hstatus
  have hstatus := Except.ok.inj hstatus
  have hagreed : Agreed view.rest :=
    Honest.agreed (d := ⟨target, ⟨view, behind, []⟩⟩) h hin (congrArg Prod.fst hstatus) hrun
  obtain ⟨d', hrun', hstep⟩ := Agreed.run (d := ⟨target, ⟨view, behind, []⟩⟩) hagreed hin
  rw [hrun] at hrun'
  cases hrun'
  rw [hstep.view]
  exact congrArg (view.read + ·) (congrArg Prod.snd hstatus)

/-- Over some memory, the client takes a message that does not say one thing, and is somewhere
else than its length field says. -/
theorem dishonest_run {r : Bytes} (hnot : ¬ Honest r) (hsize : r.length < 2 ^ 26) :
    ∃ behind, ∀ (view : ByteStorage) (target : Message) (copies : List Copy), view.InRange →
      view.rest = r → ∃ d, decode.run ⟨target, ⟨view, behind, copies⟩⟩ = (.ok true, d) ∧
        d.source.view.read ≠ view.read + (frameStatus r).2 := by
  have hcomplete := complete_of_not_honest hnot
  have hstatus := frameStatus_of_complete hcomplete
  have hle := (size_le_of_complete hstatus).2
  by_cases hover : Overruns r
  · obtain ⟨behind, hruns⟩ := decode_overruns hstatus hover hsize
    refine ⟨behind, fun view target copies hin hrest => ?_⟩
    obtain ⟨d, hrun, hpast, -⟩ := hruns view target copies hin hrest
    have hlength := ByteStorage.length_rest view
    rw [ByteStorage.InRange] at hin
    rw [hrest] at hlength
    exact ⟨d, hrun, by omega⟩
  · rw [Overruns, not_or, not_not, not_exists] at hover
    obtain ⟨hsubject, hnopast⟩ := hover
    have hparts : ¬ (BodyEmpty (bodyAt r) ∨ (messageReach r).Stays (· = (frameStatus r).2)) :=
      fun hparts => hnot fun _ => ⟨hsubject, hparts⟩
    rw [not_or] at hparts
    obtain ⟨hfield, hstays⟩ := hparts
    refine ⟨[], fun view target copies hin hrest => ?_⟩
    subst hrest
    have hreaches := decode_reaches (d := ⟨target, ⟨view, [], copies⟩⟩) hin hstatus hsubject
    dsimp only at hreaches
    cases hreach : messageReach view.rest with
    | within k =>
        rw [hreach] at hreaches hstays
        obtain ⟨-, answer, d, hrun, hstep⟩ := hreaches
        obtain rfl : answer = true :=
          (decode_answer (d := ⟨target, ⟨view, [], copies⟩⟩) hin hstatus hsubject hrun).mpr hfield
        refine ⟨d, hrun, fun hread => hstays ?_⟩
        rw [hstep.view] at hread
        exact Nat.add_left_cancel (n := view.read) hread
    | refused =>
        rw [hreach] at hstays
        exact absurd trivial hstays
    | past excess pending => exact absurd ⟨pending, hreach⟩ (hnopast excess)

theorem honest_of_decodesToEnd {view : ByteStorage} {target : Message} (hin : view.InRange)
    (hsize : view.rest.length < 2 ^ 26) (h : ∀ behind, DecodesToEnd target ⟨view, behind, []⟩) :
    Honest view.rest := by
  by_contra hnot
  obtain ⟨behind, hruns⟩ := dishonest_run hnot hsize
  obtain ⟨d, hrun, hread⟩ := hruns view target [] hin rfl
  refine hread (h behind d _ hrun ?_)
  rw [haveCompleteMessage_run (s := ⟨view, behind, []⟩) hin, ← complete_of_not_honest hnot]

/-! ## One stream -/

/-- The client's side of a stream: one message that `processData` takes. -/
def Receiving.take (keeps : Nat → Bool) (s : Receiving) : Option Receiving :=
  match (processData keeps).run s with
  | (.ok true, s') => some s'
  | _ => none

/-- The router's side: one message that `process_buffer` takes. -/
def Routing.take (stray : Stray) (source : Nat) (s : Routing) : Option Routing :=
  match (processBuffer stray source).run s with
  | (.ok .complete, s') => some s'
  | _ => none

/-- A message the client takes is one the decoder answers for, and the client is behind what the
decoder took. -/
theorem Receiving.of_take {keeps : Nat → Bool} {s s' : Receiving} (hin : s.source.view.InRange)
    (h : take keeps s = some s') :
    (frameStatus s.source.view.rest).1 = .complete ∧ ∃ (old : Message) (d : Decoding),
      decode.run ⟨old.clear, s.source.mark⟩ = (.ok true, d) ∧ s'.source = d.source := by
  have hcomplete : (frameStatus s.source.view.rest).1 = .complete := by
    by_contra hother
    rw [take, processData_other keeps hin hother] at h
    cases h
  refine ⟨hcomplete, ?_⟩
  obtain ⟨old, hsettles⟩ := processData_settles keeps hin (frameStatus_of_complete hcomplete)
  cases hdecode : decode.run ⟨old.clear, s.source.mark⟩ with
  | mk answer d =>
      rw [hdecode] at hsettles
      cases answer with
      | ok answer =>
          cases answer with
          | true =>
              obtain ⟨t, hrun⟩ := hsettles
              rw [take, hrun] at h
              cases h
              exact ⟨old, d, hdecode, rfl⟩
          | false =>
              obtain ⟨t, hrun, -⟩ := hsettles
              rw [take, hrun] at h
              cases h
      | error e =>
          cases e with
          | exception what =>
              obtain ⟨t, hrun, -⟩ := hsettles
              rw [take, hrun] at h
              cases h
          | outOfBounds | overrun | diverged | badCast =>
              obtain ⟨e, s'', hrun⟩ := hsettles
              rw [take, hrun] at h
              cases h

theorem Receiving.exists_take {s : Receiving} (keeps : Nat → Bool) (hin : s.source.view.InRange)
    (hcomplete : (frameStatus s.source.view.rest).1 = .complete)
    (hruns : ∀ old : Message, ∃ d, decode.run ⟨old.clear, s.source.mark⟩ = (.ok true, d)) :
    ∃ s', take keeps s = some s' := by
  obtain ⟨old, hsettles⟩ := processData_settles keeps hin (frameStatus_of_complete hcomplete)
  obtain ⟨d, hdecode⟩ := hruns old
  rw [hdecode] at hsettles
  obtain ⟨t, hrun⟩ := hsettles
  exact ⟨⟨t, d.source⟩, by rw [take, hrun]⟩

/-- However far each of them is followed, the two ends have taken messages off the stream
at the same positions. -/
def SplitAlike (keeps : Nat → Bool) (stray : Stray) (source : Nat) (s : Receiving) (t : Routing) :
    Prop :=
  ∀ m n, Comparable
    (ends (Receiving.take keeps) (fun s => s.source.view.read) m s)
    (ends (Routing.take stray source) (fun t => t.source.view.read) n t)

/-- The heads both ends come to, one message after another that both take and that says
the same twice; `memory` is what the router has behind the stream. -/
inductive Shared (stray : Stray) (memory r : Bytes) : Bytes → Prop where
  | start : Shared stray memory r r
  | next {u : Bytes} (h : Shared stray memory r u) (hrouter : Takes stray memory u)
      (hclient : Agreed u) : Shared stray memory r (u.drop (frameStatus u).2)

theorem Shared.length_le {stray : Stray} {memory r u : Bytes} (h : Shared stray memory r u) :
    u.length ≤ r.length := by
  induction h with
  | start => exact Nat.le_refl _
  | next _ _ _ ih =>
      rw [List.length_drop]
      omega

/-- Client and router side by side, in front of `u`. -/
structure Alongside (behind memory u : Bytes) (s : Receiving) (t : Routing) : Prop where
  clientIn : s.source.view.InRange
  routerIn : t.source.view.InRange
  clientAt : s.source.view.rest = u
  routerAt : t.source.view.rest = u
  clientBehind : s.source.behind = behind
  routerBehind : t.source.behind = memory
  position : s.source.view.read = t.source.view.read

section Stream

variable {keeps : Nat → Bool} {stray : Stray} {source : Nat} {behind memory r u : Bytes}
  {s s' : Receiving} {t t' : Routing}

theorem Alongside.routed (h : Alongside behind memory u s t) (ht : t.take stray source = some t') :
    Takes stray memory u ∧ (frameStatus u).2 ≤ u.length ∧
      t'.source = (t.source.advanceRead (frameStatus u).2).mark := by
  obtain ⟨-, hin, -, rfl, -, rfl, -⟩ := h
  obtain ⟨htakes, hle, router, hrun⟩ | ⟨-, hstop⟩ := processBuffer_cases stray source hin
  · rw [Routing.take, hrun] at ht
    cases ht
    exact ⟨htakes, hle, rfl⟩
  · obtain ⟨status, s', hne, hrun⟩ | ⟨e, s', -, hrun⟩ := hstop
    · cases status with
      | complete => exact absurd rfl hne
      | incomplete | corrupt =>
          rw [Routing.take, hrun] at ht
          cases ht
    · rw [Routing.take, hrun] at ht
      cases ht

theorem Alongside.exists_routed (source : Nat) (h : Alongside behind memory u s t)
    (htakes : Takes stray memory u) : ∃ t', t.take stray source = some t' := by
  obtain ⟨-, hin, -, rfl, -, rfl, -⟩ := h
  obtain ⟨-, -, router, hrun⟩ | ⟨hnot, -⟩ := processBuffer_cases stray source hin
  · exact ⟨_, by rw [Routing.take, hrun]⟩
  · exact absurd htakes hnot

/-- Where both take a message that says the same twice, they are side by side again. -/
theorem Alongside.both (h : Alongside behind memory u s t) (hhonest : Honest u)
    (hs : s.take keeps = some s') (ht : t.take stray source = some t') :
    Takes stray memory u ∧ Agreed u ∧ Alongside behind memory (u.drop (frameStatus u).2) s' t' := by
  obtain ⟨htakes, hle, hrouter⟩ := h.routed ht
  obtain ⟨hcin, hrin, rfl, hrest, rfl, rfl, hpos⟩ := h
  obtain ⟨hcomplete, old, d, hdecode, hclient⟩ := Receiving.of_take hcin hs
  have hagreed : Agreed s.source.view.rest :=
    Honest.agreed (d := ⟨old.clear, s.source.mark⟩) hhonest hcin hcomplete hdecode
  obtain ⟨d', hrun, hstep⟩ := Agreed.run (d := ⟨old.clear, s.source.mark⟩) hagreed hcin
  rw [hdecode] at hrun
  cases hrun
  rw [← hclient] at hstep
  refine ⟨htakes, hagreed, hstep.inRange hcin hle, ?_, hstep.rest, ?_, hstep.behind, ?_, ?_⟩
  · rw [hrouter]
    exact hrin.advanceRead (hrest ▸ hle)
  · rw [hrouter, ← hrest]
    exact ByteStorage.rest_advanceRead t.source.view _
  · rw [hrouter]
    rfl
  · rw [hstep.view, hrouter]
    exact congrArg (· + (frameStatus s.source.view.rest).2) hpos

theorem Alongside.shared {s₁ : Receiving} {t₁ : Routing} (h : Alongside behind memory r s t)
    (hhonest : ∀ u, Shared stray memory r u → Takes stray memory u → Honest u)
    (htogether : Together (Receiving.take keeps) (Routing.take stray source)
      (fun s => s.source.view.read) (fun t => t.source.view.read) s t s₁ t₁) :
    ∃ u, Shared stray memory r u ∧ Alongside behind memory u s₁ t₁ := by
  induction htogether with
  | start => exact ⟨r, .start, h⟩
  | next _ hs ht hat ih =>
      obtain ⟨u, hshared, halong⟩ := ih
      have htakes := (halong.routed ht).1
      obtain ⟨-, hagreed, hnext⟩ := halong.both (hhonest u hshared htakes) hs ht
      exact ⟨_, hshared.next htakes hagreed, hnext⟩

theorem Agreed.honest (h : Agreed u) : Honest u := fun _ =>
  ⟨h.subject, .inr (by rw [h.parts]; exact rfl)⟩

theorem Shared.together (keeps : Nat → Bool) (source : Nat) (h : Shared stray memory r u)
    (hstart : Alongside behind memory r s t) :
    ∃ s₁ t₁, Alongside behind memory u s₁ t₁ ∧
      Together (Receiving.take keeps) (Routing.take stray source)
        (fun s => s.source.view.read) (fun t => t.source.view.read) s t s₁ t₁ := by
  induction h with
  | start => exact ⟨s, t, hstart, .start⟩
  | next _ hrouter hclient ih =>
      obtain ⟨s₁, t₁, halong, htogether⟩ := ih
      obtain ⟨t₂, ht⟩ := halong.exists_routed source hrouter
      obtain ⟨s₂, hs⟩ : ∃ s₂, Receiving.take keeps s₁ = some s₂ := by
        refine Receiving.exists_take keeps halong.clientIn ?_ fun old => ?_
        · rw [halong.clientAt]
          exact hclient.complete
        · obtain ⟨d', hrun, -⟩ := Agreed.run (d := ⟨old.clear, s₁.source.mark⟩)
            (show Agreed s₁.source.view.rest from halong.clientAt ▸ hclient) halong.clientIn
          exact ⟨d', hrun⟩
      obtain ⟨-, -, hnext⟩ := halong.both hclient.honest hs ht
      exact ⟨s₂, t₂, hnext, htogether.next hs ht hnext.position⟩

theorem Alongside.splitAlike (h : Alongside behind memory r s t)
    (hhonest : ∀ u, Shared stray memory r u → Takes stray memory u → Honest u) :
    SplitAlike keeps stray source s t := by
  rw [SplitAlike, comparable_ends_iff]
  intro s₁ t₁ htogether s₂ t₂ hs ht
  obtain ⟨u, hshared, halong⟩ := h.shared hhonest htogether
  have htakes := (halong.routed ht).1
  exact (halong.both (hhonest u hshared htakes) hs ht).2.2.position

/-- A message both ends come to and the router takes, and that does not say the same twice,
parts them over some memory of the client's. -/
theorem Shared.parts (h : Shared stray memory r u) (htakes : Takes stray memory u)
    (hnot : ¬ Honest u) (hsize : r.length < 2 ^ 26) :
    ∃ behind, ∀ s t, Alongside behind memory r s t → ¬ SplitAlike keeps stray source s t := by
  obtain ⟨behind, hruns⟩ := dishonest_run hnot (h.length_le.trans_lt hsize)
  refine ⟨behind, fun s t hstart halike => ?_⟩
  rw [SplitAlike, comparable_ends_iff] at halike
  obtain ⟨s₁, t₁, halong, htogether⟩ := h.together keeps source hstart
  obtain ⟨t₂, ht⟩ := halong.exists_routed source htakes
  have hbehind : s₁.source.mark = ⟨s₁.source.view.mark, behind, s₁.source.copies⟩ := by
    rw [← halong.clientBehind]
    rfl
  obtain ⟨s₂, hs⟩ : ∃ s₂, Receiving.take keeps s₁ = some s₂ := by
    refine Receiving.exists_take keeps halong.clientIn ?_ fun old => ?_
    · rw [halong.clientAt]
      exact complete_of_not_honest hnot
    · obtain ⟨d, hrun, -⟩ := hruns s₁.source.view.mark old.clear s₁.source.copies
        halong.clientIn halong.clientAt
      exact ⟨d, hbehind ▸ hrun⟩
  obtain ⟨-, old, d, hdecode, hclient⟩ := Receiving.of_take halong.clientIn hs
  obtain ⟨d', hrun, hread⟩ := hruns s₁.source.view.mark old.clear s₁.source.copies
    halong.clientIn halong.clientAt
  rw [hbehind, hrun] at hdecode
  cases hdecode
  have hat := halike s₁ t₁ htogether s₂ t₂ hs ht
  rw [hclient, (halong.routed ht).2.2] at hat
  refine hread (hat.trans ?_)
  exact congrArg (· + (frameStatus u).2) halong.position.symm

end Stream

/-- `decode` ends where `have_complete_message` says, and the two ends split a stream alike,
whatever the client has in its memory behind the buffer, as long as the messages both of them come
to say the same twice. In less than 64 MiB they do so only then. -/
theorem boundaries_iff (keeps : Nat → Bool) (stray : Stray) (source : Nat) (target : Message)
    (transport : TCPTransport) (router : Bootstrap) (memory r : Bytes) :
    (∀ view : ByteStorage, view.InRange → view.rest = r →
        (Honest r → ∀ behind, DecodesToEnd target ⟨view, behind, []⟩) ∧
        (r.length < 2 ^ 26 → (∀ behind, DecodesToEnd target ⟨view, behind, []⟩) → Honest r)) ∧
      ((∀ u, Shared stray memory r u → Takes stray memory u → Honest u) →
        ∀ behind, SplitAlike keeps stray source ⟨transport, ⟨.ofBytes r, behind, []⟩⟩
          ⟨router, ⟨.ofBytes r, memory, []⟩⟩) ∧
      (r.length < 2 ^ 26 →
        (∀ behind, SplitAlike keeps stray source ⟨transport, ⟨.ofBytes r, behind, []⟩⟩
          ⟨router, ⟨.ofBytes r, memory, []⟩⟩) →
        ∀ u, Shared stray memory r u → Takes stray memory u → Honest u) := by
  have hstart : ∀ behind, Alongside behind memory r ⟨transport, ⟨.ofBytes r, behind, []⟩⟩
      ⟨router, ⟨.ofBytes r, memory, []⟩⟩ :=
    fun behind => ⟨Nat.zero_le _, Nat.zero_le _, rfl, rfl, rfl, rfl, rfl⟩
  refine ⟨fun view hin hrest => ?_, fun h behind => (hstart behind).splitAlike h,
    fun hsize h u hshared htakes => ?_⟩
  · subst hrest
    exact ⟨fun h behind => Honest.decodesToEnd h hin target behind, honest_of_decodesToEnd hin⟩
  · by_contra hnot
    obtain ⟨behind, hparts⟩ := hshared.parts htakes hnot hsize
    exact hparts _ _ (hstart behind) (h behind)

theorem probe_boundaries :
    DecodesToEnd Message.new ⟨.ofBytes probe.wire, [2, 0], []⟩ ∧
      SplitAlike (fun _ => false) (fun _ => none) 1
        ⟨.new fun _ _ => 0, ⟨.ofBytes probe.wire, [2, 0], []⟩⟩
        ⟨Bootstrap.start [1] (fun _ => []) fun _ _ => 0, ⟨.ofBytes probe.wire, [], []⟩⟩ := by
  obtain ⟨hdecode, hsplit, -⟩ := boundaries_iff (fun _ => false) (fun _ => none) 1 Message.new
    (.new fun _ _ => 0) (Bootstrap.start [1] (fun _ => []) fun _ _ => 0) [] probe.wire
  have hheads : ∀ u, Shared (fun _ => none) [] probe.wire u → u = probe.wire ∨ u = [] := by
    intro u hshared
    induction hshared with
    | start => exact .inl rfl
    | next _ _ hclient ih =>
        obtain rfl | rfl := ih
        · exact .inr (by decide)
        · cases hclient.complete
  refine ⟨(hdecode (.ofBytes probe.wire) (Nat.zero_le _) rfl).1 (by decide) [2, 0],
    hsplit (fun u hshared _ => ?_) [2, 0]⟩
  obtain rfl | rfl := hheads u hshared
  · decide
  · exact fun hcomplete => by cases hcomplete

/-- A message with one field, one byte longer by its length field than by its parts, and
another message behind it. -/
def paddedStream : Bytes :=
  [1, 23, 0, 0, 0, 0, 0, 0, 0, 255, 0, 0, 0, 0, 2, 0, 65, 0, 2, 1, 0, 0, 0,
    4, 1, 1, 0, 0, 0, 118, 7, 0] ++ probe.wire

/-- A message of thirty bytes, the last of them the name of a time that is declared to have
no bytes. -/
def timeHead : Bytes :=
  [1, 21, 0, 0, 0, 0, 0, 0, 0, 255, 0, 0, 0, 0, 2, 0, 65, 0, 2, 1, 0, 0, 0,
    2, 1, 0, 0, 0, 0, 116]

/-- The client is behind the field and the router behind the padding; and it reads a time from
behind its buffer. -/
theorem paddedStream_split :
    ¬ DecodesToEnd Message.new ⟨.ofBytes paddedStream, [], []⟩ ∧
      ¬ DecodesToEnd Message.new ⟨.ofBytes timeHead, List.replicate 16 0, []⟩ ∧
      (decode.run ⟨Message.new, ⟨.ofBytes timeHead, List.replicate 16 0, []⟩⟩).2.source.view.read =
        46 ∧
      ¬ SplitAlike (fun _ => false) (fun _ => none) 1
        ⟨.new fun _ _ => 0, ⟨.ofBytes paddedStream, [], []⟩⟩
        ⟨Bootstrap.start [1] (fun _ => []) fun _ _ => 0, ⟨.ofBytes paddedStream, [], []⟩⟩ := by
  refine ⟨fun h => ?_, fun h => ?_, by decide, fun h => ?_⟩
  · have hread := h _ 32 (Prod.ext rfl rfl) (by decide)
    exact absurd hread (by decide)
  · have hread := h _ 30 (Prod.ext rfl rfl) (by decide)
    exact absurd hread (by decide)
  · have hclient : ends (Receiving.take fun _ => false) (fun s => s.source.view.read) 1
        ⟨.new fun _ _ => 0, ⟨.ofBytes paddedStream, [], []⟩⟩ = [31] := by decide +kernel
    have hrouter : ends (Routing.take (fun _ => none) 1) (fun t => t.source.view.read) 1
        ⟨Bootstrap.start [1] (fun _ => []) fun _ _ => 0, ⟨.ofBytes paddedStream, [], []⟩⟩ =
          [32] := by decide +kernel
    have hone := h 1 1
    rw [hclient, hrouter] at hone
    exact absurd hone (by rw [Comparable]; decide)

end Exposed

end Fastpath
