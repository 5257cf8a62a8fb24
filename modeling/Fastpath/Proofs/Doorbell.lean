import Fastpath.Lib.Steps
import Fastpath.Model.Doorbell

/-!
# Nobody sleeps on a queue

The router's callback resets the counter before it looks at the queue. A report
therefore always finds a counter that can be read, and no wake-up is taken for a
client that has gone; and as long as the counter is not zero the descriptor is on
the list or has just been reported. The client's callback resets nothing, and its
counter only goes up: it misses no message either, until a write is refused while
it sleeps on a queue that the write was to announce.

Left to itself, the receiver comes to the end of its queue, or to a null pointer.
-/

namespace Fastpath

open Fastpath.Lib

namespace Doorbell

variable {direction : Direction} {d : Doorbell}

/-- The receiver has come to the front of the queue. -/
def AtFront (d : Doorbell) : Prop := d.receiver = .reading ∨ d.receiver = .faulted

instance (d : Doorbell) : Decidable d.AtFront :=
  inferInstanceAs (Decidable (_ ∨ _))

/-- The pointers that the receiver has not come to. -/
def unread (d : Doorbell) : List SharedPtr :=
  if d.AtFront then d.queue.objectList.items.tail else d.queue.objectList.items

/-- What the queue had room for is retrieved in order, once, or waits. -/
def Conserves (d : Doorbell) : Prop := d.retrieved ++ d.unread = d.accepted

/-- A receiver that has nothing to do has nothing to read, or is about to be woken. -/
def Awake (d : Doorbell) : Prop :=
  d.receiver = .waiting → d.queue.objectList.items ≠ [] →
    d.sending = true ∨ d.ready = true ∧ 0 < d.counter

/-- No write is refused that had to wake the receiver. -/
def Heard (d : Doorbell) : Step → Prop
  | .notify => d.sending = true → maxCounter ≤ d.counter → d.receiver = .waiting →
      d.ready = true ∨ d.queue.objectList.items = []
  | _ => True

structure Sound (direction : Direction) (d : Doorbell) : Prop where
  conserves : d.Conserves
  awake : d.Awake
  present : d.receiver ≠ .disconnected
  front : d.AtFront → d.queue.objectList.items ≠ []
  faulted : d.receiver = .faulted → none ∈ d.retrieved
  /-- What has been reported can be read. -/
  called : d.receiver = .called → 0 < d.counter
  unregistered : d.receiver = .unregistered → d.queue.objectList.items ≠ [] →
    d.sending = true ∨ 0 < d.counter
  /-- What can be read is on the list, or has been reported, if it is read at all. -/
  listed : direction = .toRouter → 0 < d.counter →
    d.ready = true ∨ d.receiver = .called ∨ d.receiver = .unregistered

theorem unread_front (h : d.AtFront) : d.unread = d.queue.objectList.items.tail := if_pos h

theorem unread_of_not (h : ¬ d.AtFront) : d.unread = d.queue.objectList.items := if_neg h

theorem not_atFront {receiver : Receiver} (h : d.receiver = receiver)
    (hreading : receiver ≠ .reading)
    (hfaulted : receiver ≠ .faulted) : ¬ d.AtFront := by
  rintro (hfront | hfront)
  · exact hreading (h.symm.trans hfront)
  · exact hfaulted (h.symm.trans hfront)

theorem sound_new : (new).Sound direction where
  conserves := rfl
  awake := fun h => by cases h
  present := fun h => by cases h
  front := by rintro (h | h) <;> cases h
  faulted := fun h => by cases h
  called := fun h => by cases h
  unregistered := fun _ h => absurd rfl h
  listed := fun _ h => absurd h (Nat.lt_irrefl 0)

namespace Sound

theorem push (h : d.Sound direction) (ptr : SharedPtr) : (d.push ptr).Sound direction := by
  have hitems : (d.push ptr).queue.objectList.items =
      d.queue.objectList.items ++ if (d.queue.objectList.push ptr).1 then [ptr] else [] := by
    by_cases hfull : d.queue.objectList.Full
    · rw [Doorbell.push, SharedMemoryBuffer.notify, Fifo.push_full hfull]
      exact (List.append_nil _).symm
    · obtain ⟨hroom, hpushed⟩ := Fifo.push_room hfull ptr
      rw [Doorbell.push, SharedMemoryBuffer.notify, hpushed, hroom]
      rfl
  have haccepted : (d.push ptr).accepted =
      d.accepted ++ if (d.queue.objectList.push ptr).1 then [ptr] else [] := by
    rw [Doorbell.push]
    split
    · rfl
    · exact (List.append_nil _).symm
  refine ⟨?_, fun _ _ => .inl rfl, h.present, fun hfront hnil => ?_, h.faulted, h.called,
    fun _ _ => .inl rfl, h.listed⟩
  · have hunread : (d.push ptr).unread =
        d.unread ++ if (d.queue.objectList.push ptr).1 then [ptr] else [] := by
      by_cases hfront : d.AtFront
      · rw [unread_front hfront, unread_front (d := d.push ptr) hfront, hitems,
          List.tail_append_of_ne_nil (h.front hfront)]
      · rw [unread_of_not hfront, unread_of_not (d := d.push ptr) hfront, hitems]
    rw [Conserves, hunread, haccepted, ← h.conserves, ← List.append_assoc]
    rfl
  · rw [hitems] at hnil
    exact h.front hfront (List.append_eq_nil_iff.mp hnil).1

theorem notify (h : d.Sound direction) (hsending : d.sending = true)
    (hheard : d.Heard .notify) : (d.notify direction).Sound direction := by
  rw [Doorbell.notify]
  split
  · have hpos : 0 < d.counter + 1 := Nat.succ_pos _
    refine ⟨h.conserves, fun hwaiting _ => .inr ⟨?_, hpos⟩, h.present, h.front, h.faulted,
      fun _ => hpos, fun _ _ => .inr hpos, fun _ _ => ?_⟩
    · have hwaiting : d.receiver = .waiting := hwaiting
      simp [hwaiting]
    · by_cases hunregistered : d.receiver = .unregistered
      · exact .inr (.inr hunregistered)
      · exact .inl (decide_eq_true hunregistered)
  · next hfull =>
      have hmax : maxCounter ≤ d.counter := Nat.not_lt.mp hfull
      have hpos : 0 < d.counter := Nat.lt_of_lt_of_le (by decide) hmax
      refine ⟨h.conserves, fun hwaiting hitems => .inr ⟨?_, hpos⟩, h.present, h.front, h.faulted,
        h.called, fun _ _ => .inr hpos, h.listed⟩
      exact (hheard hsending hmax hwaiting).resolve_right hitems

theorem receive (h : d.Sound direction) : (d.receive direction).Sound direction := by
  have hconserves := h.conserves
  rw [Conserves] at hconserves
  cases hreceiver : d.receiver with
  | unregistered =>
      rw [unread_of_not (not_atFront hreceiver nofun nofun)] at hconserves
      simp only [Doorbell.receive, hreceiver]
      refine ⟨hconserves, fun _ hitems => ?_, nofun, nofun, nofun, nofun, nofun,
        fun _ hpos => .inl (decide_eq_true hpos)⟩
      exact (h.unregistered hreceiver hitems).imp_right fun hpos => ⟨decide_eq_true hpos, hpos⟩
  | waiting =>
      rw [unread_of_not (not_atFront hreceiver nofun nofun)] at hconserves
      simp only [Doorbell.receive, hreceiver]
      split
      · split
        · next hpos =>
            exact ⟨hconserves, nofun, nofun, nofun, nofun, fun _ => hpos, nofun,
              fun _ _ => .inr (.inl rfl)⟩
        · next hzero =>
            refine ⟨hconserves, fun _ hitems => ?_, nofun, nofun, nofun, nofun, nofun,
              fun _ hpos => absurd hpos hzero⟩
            exact .inl ((h.awake hreceiver hitems).resolve_right fun hready => hzero hready.2)
      · exact h
  | called =>
      rw [unread_of_not (not_atFront hreceiver nofun nofun)] at hconserves
      have hpos := h.called hreceiver
      cases direction with
      | toRouter =>
          simp only [Doorbell.receive, hreceiver, if_pos hpos]
          exact ⟨hconserves, nofun, nofun, nofun, nofun, nofun, nofun,
            fun _ hpos => absurd hpos (Nat.lt_irrefl 0)⟩
      | toClient =>
          simp only [Doorbell.receive, hreceiver]
          exact ⟨hconserves, nofun, nofun, nofun, nofun, nofun, nofun, nofun⟩
  | retrieving =>
      have hlisted : direction = .toRouter → 0 < d.counter → d.ready = true := fun hto hpos =>
        (h.listed hto hpos).resolve_right (by rw [hreceiver]; nofun)
      rw [unread_of_not (not_atFront hreceiver nofun nofun)] at hconserves
      simp only [Doorbell.receive, hreceiver]
      split
      · next hnil =>
          exact ⟨hconserves, fun _ hitems => absurd hnil hitems, nofun, nofun, nofun, nofun, nofun,
            fun hto hpos => .inl (hlisted hto hpos)⟩
      · next ptr rest hcons =>
          have hmoved : d.retrieved ++ [ptr] ++ d.queue.objectList.items.tail = d.accepted := by
            rw [← hconserves, hcons, List.tail_cons, List.append_assoc, List.singleton_append]
          have hnonempty : d.queue.objectList.items ≠ [] := hcons ▸ List.cons_ne_nil _ _
          cases ptr with
          | none =>
              exact ⟨hmoved, nofun, nofun, fun _ => hnonempty,
                fun _ => List.mem_append_right _ (List.mem_singleton_self _), nofun, nofun,
                fun hto hpos => .inl (hlisted hto hpos)⟩
          | some data =>
              exact ⟨hmoved, nofun, nofun, fun _ => hnonempty, nofun, nofun, nofun,
                fun hto hpos => .inl (hlisted hto hpos)⟩
  | reading =>
      rw [unread_front (.inl hreceiver)] at hconserves
      simp only [Doorbell.receive, hreceiver]
      exact ⟨hconserves, nofun, nofun, nofun, nofun, nofun, nofun,
        fun hto hpos => .inl ((h.listed hto hpos).resolve_right (by rw [hreceiver]; nofun))⟩
  | faulted =>
      simp only [Doorbell.receive, hreceiver]
      exact h
  | disconnected => exact absurd hreceiver h.present

theorem step (h : d.Sound direction) {i : Step} (hheard : d.Heard i) :
    (d.step direction i).Sound direction := by
  cases i with
  | push ptr =>
      rw [Doorbell.step]
      split
      · exact h.push ptr
      · exact h
  | notify =>
      rw [Doorbell.step]
      split
      · next hsending => exact h.notify hsending hheard
      · exact h
  | receive => exact h.receive

/-- A descriptor that is read as often as it is reported is on the list as long as it has
anything to tell. -/
theorem heard (h : d.Sound .toRouter) (i : Step) : d.Heard i := by
  cases i with
  | notify =>
      intro _ hmax hwaiting
      have hpos : 0 < d.counter := Nat.lt_of_lt_of_le (by decide) hmax
      exact .inl ((h.listed rfl hpos).resolve_right (by rw [hwaiting]; nofun))
  | push ptr => trivial
  | receive => trivial

/-- The receiver sleeps on what a refused write was to announce. -/
theorem sleeps {i : Step} (hnot : ¬ d.Heard i) : ¬ (d.step .toClient i).Awake := by
  cases i with
  | notify =>
      simp only [Heard, Classical.not_imp, not_or] at hnot
      obtain ⟨hsending, hmax, hwaiting, hready, hitems⟩ := hnot
      rw [Doorbell.step, if_pos hsending, Doorbell.notify, if_neg (Nat.not_lt.mpr hmax)]
      intro hawake
      rcases hawake hwaiting hitems with hmore | hmore
      · cases hmore
      · exact hready hmore.1
  | push ptr => exact absurd trivial hnot
  | receive => exact absurd trivial hnot

end Sound

/-- On the way to the router. In every interleaving the receiver has been given what the queue
had room for, in order and once, up to what is still on the queue; it does not sleep on
anything without the sender having to wake it; and it takes no wake-up for the end of its
client. -/
theorem router_woken (steps : List Step) :
    Always (step .toRouter) (fun d => d.Conserves ∧ d.Awake ∧ d.receiver ≠ .disconnected) new
      steps := by
  have hsound : Always (step .toRouter) (Sound .toRouter) new steps :=
    always_of_step (fun _ i h => h.step (h.heard i)) sound_new
  exact hsound.mono fun _ h => ⟨h.conserves, h.awake, h.present⟩

/-- On the way to a client, whose counter only goes up. -/
theorem client_woken_iff (steps : List Step) :
    Always (step .toClient) Awake new steps ↔ Along (step .toClient) Heard new steps :=
  always_iff_along (I := Sound .toClient) (fun _ h => h.awake) (fun _ _ h hheard => h.step hheard)
    (fun _ _ _ hnot => Sound.sleeps hnot) sound_new

def Step.notifies : Step → Bool
  | .notify => true
  | _ => false

theorem counter_step_le (direction : Direction) (d : Doorbell) (i : Step) :
    (d.step direction i).counter ≤ d.counter + if i.notifies then 1 else 0 := by
  cases i with
  | push ptr =>
      rw [step]
      split <;> exact Nat.le_refl _
  | notify =>
      rw [step]
      split
      · rw [notify]
        split
        · exact Nat.le_refl _
        · exact Nat.le_succ _
      · exact Nat.le_succ _
  | receive =>
      show (d.receive direction).counter ≤ d.counter
      rw [receive.eq_def]
      split
      · exact Nat.le_refl _
      · split <;> exact Nat.le_refl _
      · split
        · split
          · exact Nat.zero_le _
          · exact Nat.le_refl _
        · exact Nat.le_refl _
      · split <;> exact Nat.le_refl _
      · exact Nat.le_refl _
      · exact Nat.le_refl _
      · exact Nat.le_refl _

/-- No write is refused as long as the counter can count them all. -/
theorem along_heard {steps : List Step} (h : d.counter + steps.countP Step.notifies ≤ maxCounter) :
    Along (step direction) Heard d steps := by
  induction steps generalizing d with
  | nil => trivial
  | cons i steps ih =>
      have hstep := counter_step_le direction d i
      rw [List.countP_cons] at h
      refine ⟨?_, ih (by omega)⟩
      cases i with
      | push ptr => trivial
      | receive => trivial
      | notify =>
          intro _ hmax
          simp only [Step.notifies, if_true] at h
          omega

/-! A receiver that is left alone. -/

/-- How many accesses it needs at most until it sleeps. -/
def distance (d : Doorbell) : Nat :=
  let again := if d.ready then 3 else 0
  match d.receiver with
  | .unregistered => 2 * d.queue.objectList.items.length + 4
  | .waiting => if d.ready then 2 * d.queue.objectList.items.length + 3 else 0
  | .called => 2 * d.queue.objectList.items.length + 2 + again
  | .retrieving => 2 * d.queue.objectList.items.length + 1 + again
  | .reading => 2 * d.queue.objectList.items.length + again
  | .faulted | .disconnected => 0

theorem distance_le (d : Doorbell) : d.distance ≤ 2 * d.queue.objectList.items.length + 5 := by
  have hagain : (if d.ready then 3 else 0) ≤ 3 := by split <;> decide
  rw [distance]
  split
  · omega
  · split <;> omega
  · omega
  · omega
  · omega
  · exact Nat.zero_le _
  · exact Nat.zero_le _

/-- What the receiver does is nothing to the sender. -/
theorem receive_sender (direction : Direction) (d : Doorbell) :
    (d.receive direction).sending = d.sending ∧ (d.receive direction).accepted = d.accepted := by
  rw [Doorbell.receive.eq_def]
  split
  · exact ⟨rfl, rfl⟩
  · split <;> exact ⟨rfl, rfl⟩
  · split
    · split <;> exact ⟨rfl, rfl⟩
    · exact ⟨rfl, rfl⟩
  · split <;> exact ⟨rfl, rfl⟩
  · exact ⟨rfl, rfl⟩
  · exact ⟨rfl, rfl⟩
  · exact ⟨rfl, rfl⟩

/-- Every access brings it nearer. -/
theorem Sound.nearer (h : d.Sound direction) :
    (d.receive direction).distance ≤ d.distance - 1 := by
  cases hreceiver : d.receiver with
  | unregistered =>
      simp only [Doorbell.receive, distance, hreceiver]
      split_ifs <;> omega
  | waiting =>
      by_cases hready : d.ready = true
      · simp only [Doorbell.receive, hreceiver, if_pos hready]
        split
        · simp only [distance, hreceiver, if_pos hready]
          exact Nat.le_refl _
        · exact Nat.zero_le _
      · simp only [Doorbell.receive, hreceiver, if_neg hready, distance]
        exact Nat.zero_le _
  | called =>
      have hpos := h.called hreceiver
      cases direction with
      | toRouter =>
          simp only [Doorbell.receive, distance, hreceiver, if_pos hpos]
          omega
      | toClient =>
          simp only [Doorbell.receive, distance, hreceiver]
          omega
  | retrieving =>
      simp only [Doorbell.receive, hreceiver]
      split
      · next hnil =>
          simp only [distance, hreceiver, hnil, List.length_nil]
          split_ifs <;> omega
      · next ptr rest hcons =>
          cases ptr with
          | none => exact Nat.zero_le _
          | some data =>
              simp only [distance, hreceiver, Option.isSome_some, if_true]
              omega
  | reading =>
      have hitems := List.length_pos_of_ne_nil (h.front (.inl hreceiver))
      simp only [Doorbell.receive, distance, hreceiver, Fifo.items_pop, List.length_tail]
      omega
  | faulted =>
      simp only [Doorbell.receive, distance, hreceiver]
      exact Nat.zero_le _
  | disconnected => exact absurd hreceiver h.present

theorem Sound.distances (h : d.Sound direction) (k : Nat) :
    let rest := after (Doorbell.step direction) d (List.replicate k .receive)
    rest.Sound direction ∧ rest.distance ≤ d.distance - k ∧ rest.sending = d.sending ∧
      rest.accepted = d.accepted := by
  induction k generalizing d with
  | zero => exact ⟨h, Nat.le_refl _, rfl, rfl⟩
  | succ k ih =>
      obtain ⟨hsound, hdistance, hsending, haccepted⟩ := ih h.receive
      have hnearer := h.nearer
      obtain ⟨hsame, hall⟩ := receive_sender direction d
      refine ⟨hsound, ?_, hsending.trans hsame, haccepted.trans hall⟩
      exact hdistance.trans (by omega)

/-- A receiver that sleeps, with nobody about to wake it, has been given everything. -/
theorem Sound.retrieved_of_distance (h : d.Sound direction) (hnull : none ∉ d.accepted)
    (hsending : d.sending = false) (hdistance : d.distance = 0) :
    d.receiver = .waiting ∧ d.retrieved = d.accepted := by
  have hwaiting : d.receiver = .waiting ∧ d.ready = false := by
    have hpresent := h.present
    have hfront := h.front
    rw [distance] at hdistance
    cases hreceiver : d.receiver with
    | waiting =>
        rw [hreceiver] at hdistance
        simpa using hdistance
    | reading =>
        have hitems := List.length_pos_of_ne_nil (hfront (.inl hreceiver))
        rw [hreceiver] at hdistance
        simp only at hdistance
        omega
    | faulted =>
        have hretrieved : d.retrieved ⊆ d.accepted :=
          h.conserves ▸ List.subset_append_left _ _
        exact absurd (hretrieved (h.faulted hreceiver)) hnull
    | disconnected => exact absurd hreceiver hpresent
    | unregistered => simp [hreceiver] at hdistance
    | called => simp [hreceiver] at hdistance
    | retrieving => simp [hreceiver] at hdistance
  obtain ⟨hwaiting, hready⟩ := hwaiting
  have hnil : d.queue.objectList.items = [] := by
    by_contra hitems
    rcases h.awake hwaiting hitems with hmore | hmore
    · rw [hsending] at hmore
      cases hmore
    · rw [hready] at hmore
      cases hmore.1
  have hconserves := h.conserves
  rw [Conserves, unread_of_not (not_atFront hwaiting nofun nofun), hnil,
    List.append_nil] at hconserves
  exact ⟨hwaiting, hconserves⟩

/-- From any state in which the sender is in no call, the receiver alone comes to everything that
the queue had room for, and then sleeps: two accesses for each pointer and five more are
enough. No pointer is null. -/
theorem all_retrieved {steps : List Step} (hheard : Along (step direction) Heard new steps)
    (hnull : none ∉ (after (step direction) new steps).accepted)
    (hsending : (after (step direction) new steps).sending = false) {k : Nat}
    (hk : 2 * (after (step direction) new steps).queue.objectList.items.length + 5 ≤ k) :
    let rest := after (step direction) new (steps ++ List.replicate k .receive)
    rest.receiver = .waiting ∧ rest.retrieved = (after (step direction) new steps).accepted := by
  have hsound := (hheard.always (fun _ _ h hheard => Sound.step h hheard) sound_new).last
  obtain ⟨hrest, hdistance, hsame, hall⟩ := hsound.distances k
  have hle := distance_le (after (step direction) new steps)
  have hzero := hrest.retrieved_of_distance (hall.symm ▸ hnull) (hsame.trans hsending) (by omega)
  rw [after_append]
  exact ⟨hzero.1, hzero.2.trans hall⟩

/-- Two messages, and one report. -/
def twice : List Step :=
  [.receive, .push (some [1]), .notify, .push (some [2]), .notify]

theorem all_retrieved_twice :
    (after (step .toClient) new (twice ++ List.replicate 9 .receive)).receiver = .waiting ∧
      (after (step .toClient) new (twice ++ List.replicate 9 .receive)).retrieved =
        (after (step .toClient) new twice).accepted :=
  all_retrieved (along_heard (by decide)) (by decide) (by decide) (by decide)

end Doorbell

end Fastpath
