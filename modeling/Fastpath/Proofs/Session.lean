import Fastpath.Lib.Steps
import Fastpath.Model.Session

/-!
# Waking the event loop

`stop` signals the notifier only if it sees the loop waiting. Between its test of
`m_shutdown` and its store of `m_in_event_wait` the loop is about to wait and
does not look like it: a `stop` that looks then does not signal, and the loop,
which has tested already, goes to sleep.

Outside that window a wake-up is not lost. Once `m_shutdown` is set the loop
cannot enter the window any more, so if it is not in it when `stop` looks, it
either tests again or is seen.
-/

namespace Fastpath.Session

open Fastpath.Lib

variable {s : Session}

/-- `stop()` does not look at `m_in_event_wait` between the loop's test of `m_shutdown` and its
store of `m_in_event_wait`. -/
def Outside (s : Session) : Step → Prop
  | .loop _ => True
  | .control => s.control = .shuttingDown → s.loop ≠ .tested

/-- What a `stop()` under way can rely on. -/
structure Heard (s : Session) : Prop where
  /-- The loop is seen while it waits. -/
  waiting : s.inEventWait = true ↔ s.loop = .polling ∨ s.loop = .returned
  /-- The loop's next test will tell it. -/
  shutdown : s.control ≠ .stopped → s.control ≠ .started →
    s.loop = .testing ∨ s.loop = .tested ∨ s.loop = .polling ∨ s.loop = .returned →
      s.shutdown = true
  manager : s.loop ≠ .ended → s.eventManager = true
  silent : s.control = .started ∨ s.control = .shuttingDown → s.signalled = false
  seen : s.control = .signalling ∨ s.control = .joining → s.loop ≠ .tested
  signalled : s.control = .joining → s.loop = .polling → s.signalled = true

theorem heard_new : new.Heard := by
  constructor <;> simp [new]

namespace Heard

theorem loopStep (h : s.Heard) (ready : Bool) : (s.loopStep ready).Heard := by
  obtain ⟨hwaiting, hshutdown, hmanager, hsilent, hseen, hsignalled⟩ := h
  cases hloop : s.loop with
  | testing =>
      rw [hloop] at hwaiting hshutdown hmanager
      simp only [Session.loopStep, hloop]
      cases hflag : s.shutdown with
      | true =>
          refine ⟨?_, ?_, fun _ => hmanager (by simp), hsilent, ?_, ?_⟩ <;>
            simp_all
      | false =>
          -- nobody is in `stop()` yet
          have hidle : s.control = .stopped ∨ s.control = .started := by
            by_contra hnot
            rw [not_or] at hnot
            have htrue := hshutdown hnot.1 hnot.2 (.inl rfl)
            rw [hflag] at htrue
            cases htrue
          refine ⟨?_, fun h1 h2 _ => ?_, fun _ => hmanager (by simp), hsilent, ?_, ?_⟩
          · simpa using hwaiting
          · exact absurd hidle (not_or.mpr ⟨h1, h2⟩)
          · rcases hidle with hidle | hidle <;> simp [hidle]
          · simp
  | tested =>
      rw [hloop] at hshutdown hmanager hseen
      simp only [Session.loopStep, hloop]
      refine ⟨by simp, fun h1 h2 _ => hshutdown h1 h2 (.inr (.inl rfl)),
        fun _ => hmanager (by simp), hsilent, fun _ => (by simp), fun hjoining _ => ?_⟩
      exact absurd rfl (hseen (.inr hjoining))
  | polling =>
      rw [hloop] at hwaiting hshutdown hmanager
      simp only [Session.loopStep, hloop]
      split
      · exact ⟨by simpa using hwaiting, fun h1 h2 _ => hshutdown h1 h2 (.inr (.inr (.inl rfl))),
          fun _ => hmanager (by simp), fun _ => rfl, fun _ => (by simp), fun _ h => (by cases h)⟩
      · exact ⟨by rw [hloop]; exact hwaiting,
          fun h1 h2 _ => hshutdown h1 h2 (.inr (.inr (.inl rfl))),
          fun _ => hmanager (by simp), hsilent, fun _ => (by simp [hloop]), hsignalled⟩
  | returned =>
      rw [hloop] at hshutdown hmanager
      simp only [Session.loopStep, hloop]
      exact ⟨by simp, fun h1 h2 _ => hshutdown h1 h2 (.inr (.inr (.inr rfl))),
        fun _ => hmanager (by simp), hsilent, fun _ => (by simp), fun _ h => (by cases h)⟩
  | exiting =>
      rw [hloop] at hwaiting hmanager
      simp only [Session.loopStep, hloop]
      exact ⟨by simpa using hwaiting, fun _ _ h => (by simp at h), fun _ => hmanager (by simp),
        hsilent, fun _ => (by simp), fun _ h => (by cases h)⟩
  | resetting =>
      rw [hloop] at hwaiting
      simp only [Session.loopStep, hloop]
      exact ⟨by simpa using hwaiting, fun _ _ h => (by simp at h), fun h => absurd rfl h,
        hsilent, fun _ => (by simp), fun _ h => (by cases h)⟩
  | ended =>
      simp only [Session.loopStep, hloop]
      exact ⟨hwaiting, hshutdown, hmanager, hsilent, hseen, hsignalled⟩

theorem ended (h : s.Heard) (hgone : ¬ s.eventManager = true) : s.loop = .ended := by
  by_contra hnot
  exact hgone (h.manager hnot)

theorem controlStep (h : s.Heard) (hout : s.Outside .control) : s.controlStep.Heard := by
  have hended := h.ended
  obtain ⟨hwaiting, hshutdown, hmanager, hsilent, hseen, hsignalled⟩ := h
  cases hcontrol : s.control with
  | stopped =>
      simp only [Session.controlStep, hcontrol]
      constructor <;> simp
  | started =>
      simp only [Session.controlStep, hcontrol]
      exact ⟨hwaiting, fun _ _ _ => rfl, hmanager, fun _ => hsilent (.inl hcontrol),
        fun h => (by simp at h), fun h => (by cases h)⟩
  | shuttingDown =>
      have hwindow := hout hcontrol
      rw [hcontrol] at hshutdown
      have htold := hshutdown (by simp) (by simp)
      simp only [Session.controlStep, hcontrol]
      split
      · by_cases hwait : s.inEventWait = true
        · rw [if_pos hwait]
          exact ⟨hwaiting, fun _ _ => htold, hmanager, fun h => (by simp at h), fun _ => hwindow,
            fun h => (by cases h)⟩
        · rw [if_neg hwait]
          -- a loop that is in the poll would have been seen
          exact ⟨hwaiting, fun _ _ => htold, hmanager, fun h => (by simp at h), fun _ => hwindow,
            fun _ hpolling => absurd (hwaiting.mpr (.inl hpolling)) hwait⟩
      · next hgone =>
          have hloop := hended hgone
          exact ⟨hwaiting, fun _ _ => htold, hmanager, fun h => (by simp at h),
            fun _ => hwindow, fun _ hpolling => absurd (hloop.symm.trans hpolling) (by simp)⟩
  | signalling =>
      have hwindow := hseen (.inl hcontrol)
      rw [hcontrol] at hshutdown
      have htold := hshutdown (by simp) (by simp)
      simp only [Session.controlStep, hcontrol]
      split
      · exact ⟨hwaiting, fun _ _ => htold, hmanager, fun h => (by simp at h), fun _ => hwindow,
          fun _ _ => rfl⟩
      · next hgone =>
          have hloop := hended hgone
          exact ⟨hwaiting, fun _ _ => htold, hmanager, fun h => (by simp at h),
            fun _ => hwindow, fun _ hpolling => absurd (hloop.symm.trans hpolling) (by simp)⟩
  | joining =>
      simp only [Session.controlStep, hcontrol]
      split
      · exact ⟨hwaiting, fun h => absurd rfl h, hmanager, fun h => (by simp at h),
          fun h => (by simp at h), fun h => (by cases h)⟩
      · exact ⟨hwaiting, hshutdown, hmanager, hsilent, hseen, hsignalled⟩

protected theorem step (h : s.Heard) {i : Step} (hout : s.Outside i) : (s.step i).Heard := by
  cases i with
  | loop ready => exact h.loopStep ready
  | control => exact h.controlStep hout

theorem not_lost (h : s.Heard) : ¬ s.Lost := by
  intro h
  obtain ⟨hjoining, -, hpolling, hsilent⟩ := h
  rw [h.signalled hjoining hpolling] at hsilent
  cases hsilent

/-- A `stop()` that looks inside the window does not signal, and the loop's next access puts it
to sleep. -/
theorem lost (h : s.Heard) {i : Step} (hnot : ¬ s.Outside i) (ready : Bool) :
    ((s.step i).step (.loop ready)).Lost := by
  cases i with
  | loop ready => exact absurd trivial hnot
  | control =>
      simp only [Outside, Classical.not_imp, not_not] at hnot
      obtain ⟨hcontrol, hloop⟩ := hnot
      have hmanager := h.manager (by rw [hloop]; simp)
      have hwait : ¬ s.inEventWait = true := by
        rw [h.waiting, hloop]
        simp
      have hlooked : s.step .control = { s with control := .joining } := by
        rw [Session.step, Session.controlStep, hcontrol]
        dsimp only
        rw [if_pos hmanager, if_neg hwait]
      rw [hlooked, Session.step, Session.loopStep, hloop]
      refine ⟨rfl, ?_, rfl, h.silent (.inr hcontrol)⟩
      exact h.shutdown (by rw [hcontrol]; simp) (by rw [hcontrol]; simp) (.inr (.inl hloop))

end Heard

/-- No state of a run is lost, nor one that the loop's next access leads to, if and only if
every `stop()` looks at `m_in_event_wait` outside of the window between the loop's test
and its store. -/
theorem outside_iff (steps : List Step) :
    Always step (fun s => ¬ s.Lost ∧ ∀ ready, ¬ (s.step (.loop ready)).Lost) new steps ↔
      Along step Outside new steps :=
  always_iff_along
    (fun _ h => ⟨Heard.not_lost h, fun ready => (h.step (i := .loop ready) trivial).not_lost⟩)
    (fun _ _ h hout => h.step hout) (fun _ _ h hnot hsafe => hsafe.2 true (h.lost hnot true))
    heard_new

/-- No wake-up is lost in a run whose `stop()` calls all look at `m_in_event_wait` outside of
that window. -/
theorem not_lost_of_outside (steps : List Step) (h : Along step Outside new steps) :
    Always step (fun s => ¬ s.Lost) new steps :=
  ((outside_iff steps).mpr h).mono fun _ h => h.1

/-- The loop has tested, `stop()` sets `m_shutdown` and looks, and the loop goes on. -/
def window : List Step := [.control, .loop false, .control, .control, .loop false]

theorem window_lost :
    (after step new window).Lost ∧ ¬ Always step (fun s => ¬ s.Lost) new window := by
  have hlost : (after step new window).Lost := ⟨rfl, rfl, rfl, rfl⟩
  exact ⟨hlost, fun h => h.last hlost⟩

/-- The loop is seen in the poll, signalled and joined. -/
def seenInPoll : List Step :=
  [.control, .loop false, .loop false, .control, .control, .control, .loop false, .loop false,
    .loop false, .loop false, .loop false, .control]

theorem not_lost_seenInPoll :
    Along step Outside new seenInPoll ∧ (after step new seenInPoll).control = .stopped ∧
      Always step (fun s => ¬ s.Lost) new seenInPoll := by
  have hout : Along step Outside new seenInPoll := by
    refine ⟨?_, trivial, trivial, ?_, ?_, ?_, trivial, trivial, trivial, trivial, trivial, ?_,
      trivial⟩ <;> exact fun _ h => by cases h
  exact ⟨hout, by decide, not_lost_of_outside seenInPoll hout⟩

end Fastpath.Session
