import Mathlib.Data.List.Count
import Fastpath.Lib.Steps
import Fastpath.Lib.Tally
import Fastpath.Model.Interprocess

/-!
# Passing pointers

A buffer is in the segment exactly while some process has a pointer to it: its
sender, a queue, or the router's wrapper. So nobody reads a buffer that has been
given back, whoever was the last to let go of it, and what a reader finds is what
the sender has put there. Passing a pointer is as good as passing the bytes, and
when everything has been read no buffer is left. A client that the segment has no
memory for ends, and leaves one storage there at most.
-/

namespace Fastpath

open Fastpath.Lib

variable {n : Nat}

theorem count_toList_some (a b : Nat) : (some b).toList.count a = if a = b then 1 else 0 := by
  rw [Option.toList_some, List.count_singleton]
  simp only [beq_iff_eq, eq_comm (a := b)]

theorem count_cons_ite (a b : Nat) (l : List Nat) :
    (b :: l).count a = l.count a + if a = b then 1 else 0 := by
  rw [List.count_cons]
  simp only [beq_iff_eq, eq_comm (a := b)]

namespace Sender

def object? : Sender → Option Nat
  | .idle => none
  | .allocated object _ => some object
  | .pushed object => some object
  | .ended => none

end Sender

namespace SHMClient

/-- The pointers of a client's process and of its queues. -/
def held (c : SHMClient) : List Nat :=
  c.sender.object?.toList ++ c.serverQueue.items ++ c.clientQueue.items

/-- What the router has not been given. `busy` says that its callback is at the front. -/
def unhandled (busy : Bool) (c : SHMClient) : List Nat :=
  if busy then c.serverQueue.items.tail else c.serverQueue.items

/-- What the client has not been given. -/
def unread (c : SHMClient) : List Nat :=
  if c.reading then c.clientQueue.items.tail else c.clientQueue.items

/-- The queues are as good as queues of bytes. -/
structure Intact (content : Nat → Option Bytes) (busy : Bool) (c : SHMClient) : Prop where
  handled : c.handled.map some ++ (c.unhandled busy).map content = c.accepted.map some
  retrieved : c.retrieved.map some ++ c.unread.map content = c.forwarded.map some
  reading : c.reading = true → c.clientQueue.items ≠ []
  allocated : ∀ object data, c.sender = .allocated object data → content object = some data

variable {content content' : Nat → Option Bytes} {busy : Bool} {c : SHMClient}

theorem unhandled_sublist (busy : Bool) (c : SHMClient) :
    List.Sublist (c.unhandled busy) c.serverQueue.items := by
  rw [unhandled]
  split
  · exact List.tail_sublist _
  · exact List.Sublist.refl _

theorem unread_sublist (c : SHMClient) : List.Sublist c.unread c.clientQueue.items := by
  rw [unread]
  split
  · exact List.tail_sublist _
  · exact List.Sublist.refl _

theorem mem_held_sender {object : Nat} (h : c.sender.object? = some object) : object ∈ c.held := by
  rw [held, h]
  exact List.mem_append_left _ (List.mem_append_left _ (List.mem_singleton_self _))

theorem mem_held_serverQueue {object : Nat} (h : object ∈ c.serverQueue.items) :
    object ∈ c.held :=
  List.mem_append_left _ (List.mem_append_right _ h)

theorem mem_held_clientQueue {object : Nat} (h : object ∈ c.clientQueue.items) :
    object ∈ c.held :=
  List.mem_append_right _ h

/-- It is a matter of the buffers that there are pointers to. -/
theorem Intact.congr (h : c.Intact content busy) (hsame : ∀ a ∈ c.held, content' a = content a) :
    c.Intact content' busy where
  handled := by
    rw [List.map_congr_left fun a ha =>
      hsame a (mem_held_serverQueue ((unhandled_sublist busy c).subset ha))]
    exact h.handled
  retrieved := by
    rw [List.map_congr_left fun a ha => hsame a
        (mem_held_clientQueue ((unread_sublist c).subset ha))]
    exact h.retrieved
  reading := h.reading
  allocated object data hsender := by
    rw [hsame object (mem_held_sender (by rw [hsender]; rfl))]
    exact h.allocated object data hsender

theorem count_held (c : SHMClient) (a : Nat) : c.held.count a =
    c.sender.object?.toList.count a + c.serverQueue.items.count a +
      c.clientQueue.items.count a := by
  rw [held, List.count_append, List.count_append]

/-- The front of a queue, and the client without it. -/
theorem count_held_pop {object : Nat} {rest : List Nat}
    (hfront : c.serverQueue.items = object :: rest) (a : Nat) :
    c.held.count a = (held { c with serverQueue := c.serverQueue.pop }).count a +
      if a = object then 1 else 0 := by
  rw [count_held, count_held, hfront, count_cons_ite]
  simp only [Fifo.items_pop, hfront, List.tail_cons]
  omega

theorem intact_new : (new).Intact content false where
  handled := rfl
  retrieved := rfl
  reading := nofun
  allocated := nofun

end SHMClient

namespace Interprocess

variable {s : Interprocess n}

/-- The wrapper's pointer. -/
def wrapper (s : Interprocess n) : Option Nat :=
  match s.router with
  | some ⟨_, object, _, .wrapped _⟩ => some object
  | _ => none

/-- The pointers to a buffer. -/
def references (s : Interprocess n) (a : Nat) : Nat :=
  tally (fun c : SHMClient => c.held.count a) s.clients + s.wrapper.toList.count a

/-- The router's callback is at the front of this queue. -/
def busy (s : Interprocess n) (i : Fin n) : Bool :=
  match s.router with
  | some callback => callback.source = i
  | none => false

structure Sound (s : Interprocess n) : Prop where
  accounts : s.segment.Accounts s.references
  intact : ∀ i, (s.clients i).Intact s.segment.content (s.busy i)
  callback : ∀ callback, s.router = some callback →
    (∃ rest, (s.clients callback.source).serverQueue.items = callback.object :: rest) ∧
      s.segment.content callback.object = some callback.data
  stray : s.stray = false

theorem held_le_references (s : Interprocess n) (i : Fin n) (a : Nat) :
    (s.clients i).held.count a ≤ s.references a :=
  (weight_le_tally (fun c : SHMClient => c.held.count a) s.clients i).trans (Nat.le_add_right _ _)

theorem referenced_of_held {i : Fin n} {a : Nat} (h : a ∈ (s.clients i).held) :
    s.references a ≠ 0 := by
  have hpos := List.count_pos_iff.mpr h
  have hle := s.held_le_references i a
  omega

theorem Sound.there (h : s.Sound) {i : Fin n} {a : Nat} (ha : a ∈ (s.clients i).held) :
    ∃ data, s.segment.content a = some data :=
  Option.ne_none_iff_exists'.mp ((h.accounts.there a).mpr (referenced_of_held ha))

theorem references_new (a : Nat) : (new : Interprocess n).references a = 0 := by
  have hnone : tally (fun c : SHMClient => c.held.count a) (new : Interprocess n).clients = 0 :=
    tally_eq_zero.mpr fun i => rfl
  rw [references, hnone]
  rfl

theorem sound_new : (new : Interprocess n).Sound where
  accounts := by
    rw [show (new : Interprocess n).references = fun _ => 0 from funext references_new]
    exact RefCounts.accounts_empty
  intact _ := SHMClient.intact_new
  callback := nofun
  stray := rfl

theorem Sound.ne_nil_of_busy (h : s.Sound) {i : Fin n} (hbusy : s.busy i = true) :
    (s.clients i).serverQueue.items ≠ [] := by
  rw [busy] at hbusy
  split at hbusy
  · next callback hrouter =>
      obtain ⟨⟨rest, hfront⟩, -⟩ := h.callback callback hrouter
      rw [← of_decide_eq_true hbusy, hfront]
      exact List.cons_ne_nil _ _
  · cases hbusy

/-! ## One client changes -/

section Change

variable {s' : Interprocess n} {i : Fin n} {c : SHMClient}

theorem Sound.change (h : s.Sound) (hclients : s'.clients = Function.update s.clients i c)
    (hstray : s'.stray = s.stray) (haccounts : s'.segment.Accounts s'.references)
    (hkept : ∀ a, s'.references a ≠ 0 → s'.segment.content a = s.segment.content a)
    (hintact : c.Intact s.segment.content (s'.busy i))
    (hbusy : ∀ j, j ≠ i → s'.busy j = s.busy j)
    (hcallback : ∀ callback, s'.router = some callback →
      (∃ rest, (s'.clients callback.source).serverQueue.items = callback.object :: rest) ∧
        s.segment.content callback.object = some callback.data) : s'.Sound where
  accounts := haccounts
  intact j := by
    have hheld : ∀ a ∈ (s'.clients j).held, s'.segment.content a = s.segment.content a :=
      fun a ha => hkept a (referenced_of_held ha)
    refine SHMClient.Intact.congr ?_ hheld
    rw [hclients]
    by_cases hj : j = i
    · rw [hj, Function.update_self]
      exact hintact
    · rw [Function.update_of_ne hj, hbusy j hj]
      exact h.intact j
  callback callback hrouter := by
    obtain ⟨⟨rest, hfront⟩, hdata⟩ := hcallback callback hrouter
    have hheld : callback.object ∈ (s'.clients callback.source).held :=
      SHMClient.mem_held_serverQueue (by rw [hfront]; exact List.mem_cons_self)
    exact ⟨⟨rest, hfront⟩, (hkept _ (referenced_of_held hheld)).trans hdata⟩
  stray := hstray.trans h.stray

/-- The router is where it was. -/
theorem Sound.client (h : s.Sound) {segment : RefCounts Bytes}
    (haccounts : segment.Accounts (s.setClient i c).references)
    (hkept : ∀ a, (s.setClient i c).references a ≠ 0 → segment.content a = s.segment.content a)
    (hintact : c.Intact s.segment.content (s.busy i))
    (hqueue : ∃ more, c.serverQueue.items = (s.clients i).serverQueue.items ++ more) :
    Sound { s.setClient i c with segment := segment } := by
  refine h.change rfl rfl haccounts hkept hintact (fun _ _ => rfl) fun callback hcallback => ?_
  obtain ⟨⟨rest, hfront⟩, hdata⟩ := h.callback callback hcallback
  refine ⟨?_, hdata⟩
  show ∃ rest, (Function.update s.clients i c callback.source).serverQueue.items = _
  by_cases hi : callback.source = i
  · obtain ⟨more, hmore⟩ := hqueue
    rw [hi] at hfront ⊢
    rw [Function.update_self, hmore, hfront]
    exact ⟨rest ++ more, rfl⟩
  · rw [Function.update_of_ne hi]
    exact ⟨rest, hfront⟩

theorem references_setClient (s : Interprocess n) (i : Fin n) (c : SHMClient) (a : Nat) :
    (s.setClient i c).references a + (s.clients i).held.count a =
      s.references a + c.held.count a := by
  have hmoved := tally_update (fun c : SHMClient => c.held.count a) s.clients i c
  have hwrapper : (s.setClient i c).wrapper = s.wrapper := rfl
  rw [references, references, hwrapper]
  show tally _ (Function.update s.clients i c) + _ + _ = _
  omega

theorem Sound.client_same (h : s.Sound)
    (hheld : ∀ a, c.held.count a = (s.clients i).held.count a)
    (hintact : c.Intact s.segment.content (s.busy i))
    (hqueue : ∃ more, c.serverQueue.items = (s.clients i).serverQueue.items ++ more) :
    (s.setClient i c).Sound := by
  have hsame : (s.setClient i c).references = s.references := by
    funext a
    have hmoved := s.references_setClient i c a
    rw [hheld a] at hmoved
    exact Nat.add_right_cancel hmoved
  exact h.client (hsame ▸ h.accounts) (fun _ _ => rfl) hintact hqueue

theorem Sound.client_copy (h : s.Sound) {object : Nat} (hthere : s.references object ≠ 0)
    (hheld : ∀ a, c.held.count a = (s.clients i).held.count a + if a = object then 1 else 0)
    (hintact : c.Intact s.segment.content (s.busy i))
    (hqueue : ∃ more, c.serverQueue.items = (s.clients i).serverQueue.items ++ more) :
    Sound { s.setClient i c with segment := s.segment.copy object } := by
  refine h.client (h.accounts.copy hthere fun a => ?_) (fun _ _ => rfl) hintact hqueue
  have hmoved := s.references_setClient i c a
  rw [hheld a] at hmoved
  omega

theorem Sound.client_drop (h : s.Sound) {object : Nat}
    (hheld : ∀ a, (s.clients i).held.count a = c.held.count a + if a = object then 1 else 0)
    (hintact : c.Intact s.segment.content (s.busy i))
    (hqueue : ∃ more, c.serverQueue.items = (s.clients i).serverQueue.items ++ more) :
    Sound { s.setClient i c with segment := s.segment.drop object } := by
  have hless : ∀ a, s.references a =
      (s.setClient i c).references a + if a = object then 1 else 0 := by
    intro a
    have hmoved := s.references_setClient i c a
    rw [hheld a] at hmoved
    omega
  exact h.client (h.accounts.drop hless) (fun _ ha => h.accounts.content_drop hless ha) hintact
    hqueue

end Change

/-! ## The client sends -/

theorem Sound.allocate (h : s.Sound) (i : Fin n) (object : Nat) (data : Bytes) :
    (s.allocate i object data).Sound := by
  rw [Interprocess.allocate]
  dsimp only
  split
  · next hfree =>
      obtain ⟨hidle, hfree⟩ := hfree
      have hnone : s.references object = 0 := by
        by_contra hsome
        exact (h.accounts.there object).mpr hsome hfree
      have hkept : ∀ a, s.references a ≠ 0 →
          (s.segment.make object data).content a = s.segment.content a :=
        fun a ha => RefCounts.content_make_of_ne data fun heq => ha (heq ▸ hnone)
      have hold : ∀ j, (s.clients j).Intact (s.segment.make object data).content (s.busy j) :=
        fun j => (h.intact j).congr fun a ha => hkept a (referenced_of_held ha)
      refine ⟨h.accounts.make hfree data fun a => ?_, fun j => ?_, fun callback hrouter => ?_,
        h.stray⟩
      · have hmoved := s.references_setClient i
          { s.clients i with sender := .allocated object data } a
        rw [SHMClient.count_held, SHMClient.count_held, hidle] at hmoved
        simp only [Sender.object?, count_toList_some, Option.toList_none, List.count_nil] at hmoved
        refine Nat.add_right_cancel (hmoved.trans ?_)
        omega
      · show (Function.update s.clients i _ j).Intact _ (s.busy j)
        by_cases hj : j = i
        · rw [hj, Function.update_self]
          refine ⟨(hold i).handled, (hold i).retrieved, (hold i).reading, fun a d hsender => ?_⟩
          cases hsender
          exact RefCounts.content_make_self data
        · rw [Function.update_of_ne hj]
          exact hold j
      · obtain ⟨⟨rest, hfront⟩, hdata⟩ := h.callback callback hrouter
        have hheld : callback.object ∈ (s.clients callback.source).held :=
          SHMClient.mem_held_serverQueue (by rw [hfront]; exact List.mem_cons_self)
        refine ⟨⟨rest, ?_⟩, (hkept _ (referenced_of_held hheld)).trans hdata⟩
        show (Function.update s.clients i _ callback.source).serverQueue.items = _
        by_cases hi : callback.source = i
        · rw [hi] at hfront ⊢
          rw [Function.update_self]
          exact hfront
        · rw [Function.update_of_ne hi]
          exact hfront
  · exact h

theorem Sound.exhausted (h : s.Sound) (i : Fin n) (storage : Bool) :
    (s.exhausted i storage).Sound := by
  rw [Interprocess.exhausted]
  dsimp only
  split
  · next hidle =>
      have hintact := h.intact i
      have hended : (s.setClient i { s.clients i with sender := .ended }).Sound := by
        refine h.client_same (fun a => ?_)
          ⟨hintact.handled, hintact.retrieved, hintact.reading, nofun⟩
          ⟨[], (List.append_nil _).symm⟩
        rw [SHMClient.count_held, SHMClient.count_held, hidle]
        rfl
      exact ⟨hended.accounts, hended.intact, hended.callback, hended.stray⟩
  · exact h

theorem Sound.push (h : s.Sound) (i : Fin n) : (s.push i).Sound := by
  rw [Interprocess.push]
  dsimp only
  split
  · next object data hsender =>
      have hintact := h.intact i
      by_cases hfull : (s.clients i).serverQueue.Full
      · rw [Fifo.push_full hfull]
        simp only [Bool.false_eq_true, if_false]
        refine h.client_same (fun a => ?_)
          ⟨hintact.handled, hintact.retrieved, hintact.reading, nofun⟩
          ⟨[], (List.append_nil _).symm⟩
        rw [SHMClient.count_held, SHMClient.count_held, hsender]
        rfl
      · obtain ⟨hpushed, hitems⟩ := Fifo.push_room hfull object
        have hheld : object ∈ (s.clients i).held := SHMClient.mem_held_sender (by rw [hsender]; rfl)
        simp only [hpushed, if_true]
        refine h.client_copy (referenced_of_held hheld) (fun a => ?_)
          ⟨?_, hintact.retrieved, hintact.reading, nofun⟩ ⟨[object], hitems⟩
        · rw [SHMClient.count_held, SHMClient.count_held, hsender, hitems, List.count_append]
          simp only [Sender.object?, count_cons_ite, List.count_nil]
          omega
        · have hunhandled : (if s.busy i = true
              then ((s.clients i).serverQueue.push object).2.items.tail
              else ((s.clients i).serverQueue.push object).2.items) =
                (s.clients i).unhandled (s.busy i) ++ [object] := by
            rw [SHMClient.unhandled, hitems]
            split
            · next hbusy => rw [List.tail_append_of_ne_nil (h.ne_nil_of_busy hbusy)]
            · rfl
          rw [SHMClient.unhandled, hunhandled, List.map_append, ← List.append_assoc,
            hintact.handled, List.map_append, List.map_cons, List.map_cons,
            hintact.allocated object data hsender]
          rfl
  · exact h

theorem Sound.release (h : s.Sound) (i : Fin n) : (s.release i).Sound := by
  rw [Interprocess.release]
  dsimp only
  split
  · next object hsender =>
      have hintact := h.intact i
      refine h.client_drop (fun a => ?_)
        ⟨hintact.handled, hintact.retrieved, hintact.reading, nofun⟩ ⟨[], (List.append_nil _).symm⟩
      rw [SHMClient.count_held, SHMClient.count_held, hsender]
      simp only [Sender.object?, count_toList_some, Option.toList_none, List.count_nil]
      omega
  · exact h

/-! ## The client receives -/

theorem Sound.retrieve (h : s.Sound) (i : Fin n) : (s.retrieve i).Sound := by
  rw [Interprocess.retrieve]
  split
  · next object rest hidle hitems =>
      have hreading : (s.clients i).reading = false := (Bool.or_eq_false_iff.mp hidle).1
      have hintact := h.intact i
      have hheld : object ∈ (s.clients i).held :=
        SHMClient.mem_held_clientQueue (by rw [hitems]; exact List.mem_cons_self)
      obtain ⟨data, hdata⟩ := h.there hheld
      have hretrieved := hintact.retrieved
      rw [SHMClient.unread, hreading, if_neg Bool.false_ne_true, hitems, List.map_cons,
        hdata] at hretrieved
      rw [hdata]
      refine h.client_same (fun a => rfl) ⟨hintact.handled, ?_, fun _ => ?_, hintact.allocated⟩
        ⟨[], (List.append_nil _).symm⟩
      · show ((s.clients i).retrieved ++ [data]).map some ++
          (if true = true then (s.clients i).clientQueue.items.tail
            else (s.clients i).clientQueue.items).map s.segment.content = _
        rw [if_pos rfl, hitems, List.tail_cons, List.map_append, List.append_assoc]
        exact hretrieved
      · show (s.clients i).clientQueue.items ≠ []
        rw [hitems]
        exact List.cons_ne_nil _ _
  · exact h

theorem Sound.pop (h : s.Sound) (i : Fin n) : (s.pop i).Sound := by
  rw [Interprocess.pop]
  dsimp only
  split
  · next object rest hbusy hitems =>
      have hreading : (s.clients i).reading = true := (Bool.and_eq_true_iff.mp hbusy).1
      have hintact := h.intact i
      have hretrieved := hintact.retrieved
      rw [SHMClient.unread, hreading, if_pos rfl] at hretrieved
      refine h.client_drop (fun a => ?_)
        ⟨hintact.handled, hretrieved, nofun, hintact.allocated⟩ ⟨[], (List.append_nil _).symm⟩
      rw [SHMClient.count_held, SHMClient.count_held, hitems, count_cons_ite]
      simp only [Fifo.items_pop, hitems, List.tail_cons]
      omega
  · exact h

/-! ## The router -/

theorem references_setRouter (s : Interprocess n) (router : Option (RouterCallback n)) (a : Nat) :
    references { s with router := router } a + s.wrapper.toList.count a =
      s.references a + (wrapper { s with router := router }).toList.count a := by
  rw [references, references]
  dsimp only
  omega

/-- The callback is called. -/
theorem Sound.enter (h : s.Sound) {i : Fin n} {object : Nat} {data : Bytes} {c : SHMClient}
    (hrouter : s.router = none) (hheld : ∀ a, c.held.count a = (s.clients i).held.count a)
    (hintact : c.Intact s.segment.content true)
    (hfront : ∃ rest, c.serverQueue.items = object :: rest)
    (hdata : s.segment.content object = some data) :
    Sound { s.setClient i c with router := some ⟨i, object, data, .entered⟩ } := by
  have hwrapper : s.wrapper = none := by rw [wrapper, hrouter]
  have hsame : references { s.setClient i c with router := some ⟨i, object, data, .entered⟩ } =
      s.references := by
    funext a
    have hmoved := s.references_setClient i c a
    have hturned := (s.setClient i c).references_setRouter (some ⟨i, object, data, .entered⟩) a
    rw [show (s.setClient i c).wrapper = none from hwrapper] at hturned
    rw [hheld a] at hmoved
    exact (Nat.add_right_cancel hturned).trans (Nat.add_right_cancel hmoved)
  have hat : busy { s.setClient i c with router := some ⟨i, object, data, .entered⟩ } i = true :=
    decide_eq_true rfl
  refine h.change (i := i) rfl rfl (hsame ▸ h.accounts) (fun _ _ => rfl) (hat.symm ▸ hintact)
    (fun j hj => ?_) fun callback hcallback => ?_
  · rw [show s.busy j = false by rw [busy, hrouter]]
    exact decide_eq_false (Ne.symm hj)
  · cases hcallback
    refine ⟨?_, hdata⟩
    show ∃ rest, (Function.update s.clients i c i).serverQueue.items = object :: rest
    rw [Function.update_self]
    exact hfront

theorem Sound.handle (h : s.Sound) (i : Fin n) : (s.handle i).Sound := by
  rw [Interprocess.handle]
  split
  · next object rest hrouter hitems =>
      have hintact := h.intact i
      have hbusy : s.busy i = false := by rw [busy, hrouter]
      have hheld : object ∈ (s.clients i).held :=
        SHMClient.mem_held_serverQueue (by rw [hitems]; exact List.mem_cons_self)
      obtain ⟨data, hdata⟩ := h.there hheld
      have hhandled := hintact.handled
      rw [SHMClient.unhandled, hbusy, if_neg Bool.false_ne_true, hitems, List.map_cons,
        hdata] at hhandled
      rw [hdata]
      refine h.enter hrouter (fun _ => rfl)
        ⟨?_, hintact.retrieved, hintact.reading, hintact.allocated⟩ ⟨rest, hitems⟩ hdata
      rw [SHMClient.unhandled, if_pos rfl, hitems, List.tail_cons, List.map_append,
        List.append_assoc]
      exact hhandled
  · exact h

/-- The callback goes on, and what it was called with stays where it is. -/
theorem Sound.stage (h : s.Sound) {i : Fin n} {object : Nat} {data : Bytes}
    {stage stage' : CallbackStage n} (hrouter : s.router = some ⟨i, object, data, stage⟩)
    {segment : RefCounts Bytes}
    (haccounts : segment.Accounts (references { s with router := some ⟨i, object, data, stage'⟩ }))
    (hkept : ∀ a, references { s with router := some ⟨i, object, data, stage'⟩ } a ≠ 0 →
      segment.content a = s.segment.content a) :
    Sound { s with segment := segment, router := some ⟨i, object, data, stage'⟩ } := by
  have hbusy : ∀ j, busy { s with segment := segment, router := some ⟨i, object, data, stage'⟩ } j =
      s.busy j := fun j => by rw [busy, busy, hrouter]
  refine h.change (i := i) (Function.update_eq_self _ _).symm rfl haccounts hkept
    ((hbusy i).symm ▸ h.intact i) (fun j _ => hbusy j) fun callback hcallback => ?_
  have hfront := h.callback _ hrouter
  cases hcallback
  exact hfront

theorem Sound.wrap (h : s.Sound) (interested : List (Fin n)) : (s.wrap interested).Sound := by
  rw [Interprocess.wrap]
  split
  · next i object data hrouter =>
      obtain ⟨⟨rest, hfront⟩, -⟩ := h.callback _ hrouter
      have hheld : object ∈ (s.clients i).held :=
        SHMClient.mem_held_serverQueue (by rw [hfront]; exact List.mem_cons_self)
      refine h.stage hrouter (h.accounts.copy (referenced_of_held hheld) fun a => ?_) fun _ _ => rfl
      have hmoved := s.references_setRouter (some ⟨i, object, data, .wrapped interested⟩) a
      rw [wrapper, hrouter, wrapper, count_toList_some] at hmoved
      exact hmoved
  · exact h

theorem Sound.unwrap (h : s.Sound) : s.unwrap.Sound := by
  rw [Interprocess.unwrap]
  split
  · next i object data hrouter =>
      have hless : ∀ a, s.references a =
          references { s with router := some ⟨i, object, data, .left⟩ } a +
            if a = object then 1 else 0 := by
        intro a
        have hmoved := s.references_setRouter (some ⟨i, object, data, .left⟩) a
        rw [wrapper, hrouter, wrapper, count_toList_some] at hmoved
        exact hmoved.symm
      exact h.stage hrouter (h.accounts.drop hless) fun a ha => h.accounts.content_drop hless ha
  · exact h

theorem Sound.forward (h : s.Sound) : s.forward.Sound := by
  rw [Interprocess.forward]
  split
  · next i object data j rest hrouter =>
      obtain ⟨⟨queued, hfront⟩, hdata⟩ := h.callback _ hrouter
      have hheld : object ∈ (s.clients i).held :=
        SHMClient.mem_held_serverQueue (by rw [hfront]; exact List.mem_cons_self)
      have hsame : references { s with router := some ⟨i, object, data, .wrapped rest⟩ } =
          s.references := by
        funext a
        have hmoved := s.references_setRouter (some ⟨i, object, data, .wrapped rest⟩) a
        rw [wrapper, hrouter, wrapper] at hmoved
        exact Nat.add_right_cancel hmoved
      have hnext : Sound { s with router := some ⟨i, object, data, .wrapped rest⟩ } :=
        h.stage hrouter (hsame ▸ h.accounts) fun _ _ => rfl
      dsimp only
      by_cases hfull : (s.clients j).clientQueue.Full
      · rw [Fifo.push_full hfull]
        exact hnext
      · obtain ⟨hpushed, hitems⟩ := Fifo.push_room hfull object
        have hintact := hnext.intact j
        simp only [hpushed, if_true]
        refine hnext.client_copy (referenced_of_held hheld) (fun a => ?_)
          ⟨hintact.handled, ?_, fun _ => ?_, hintact.allocated⟩ ⟨[], (List.append_nil _).symm⟩
        · rw [SHMClient.count_held, SHMClient.count_held, hitems, List.count_append]
          simp only [count_cons_ite, List.count_nil]
          omega
        · have hunread : (if (s.clients j).reading = true
              then ((s.clients j).clientQueue.push object).2.items.tail
              else ((s.clients j).clientQueue.push object).2.items) =
                (s.clients j).unread ++ [object] := by
            rw [SHMClient.unread, hitems]
            split
            · next hreading => rw [List.tail_append_of_ne_nil (hintact.reading hreading)]
            · rfl
          rw [SHMClient.unread, hunread, List.map_append, ← List.append_assoc, hintact.retrieved,
            List.map_append, List.map_cons, List.map_cons, hdata]
          rfl
        · rw [hitems]
          exact List.append_ne_nil_of_right_ne_nil _ (List.cons_ne_nil _ _)
  · exact h

/-- The callback is through. -/
theorem Sound.leave (h : s.Sound) {i : Fin n} {object : Nat} {c : SHMClient}
    (hbusy : ∀ j, s.busy j = decide (i = j)) (hwrapper : s.wrapper = none)
    (hheld : ∀ a, (s.clients i).held.count a = c.held.count a + if a = object then 1 else 0)
    (hintact : c.Intact s.segment.content false) :
    Sound { s.setClient i c with segment := s.segment.drop object, router := none } := by
  have hless : ∀ a, s.references a = references { s.setClient i c with router := none } a +
      if a = object then 1 else 0 := by
    intro a
    have hmoved := s.references_setClient i c a
    have hturned := (s.setClient i c).references_setRouter none a
    rw [show (s.setClient i c).wrapper = none from hwrapper] at hturned
    rw [hheld a] at hmoved
    rw [Nat.add_right_cancel hturned]
    omega
  refine h.change (i := i) rfl rfl (h.accounts.drop hless)
    (fun _ ha => h.accounts.content_drop hless ha) hintact (fun j hj => ?_) nofun
  rw [hbusy, decide_eq_false (Ne.symm hj)]
  rfl

theorem Sound.finish (h : s.Sound) : s.finish.Sound := by
  rw [Interprocess.finish]
  split
  · exact h
  · next i object data stage hnot hrouter =>
      obtain ⟨⟨rest, hfront⟩, -⟩ := h.callback _ hrouter
      have hintact := h.intact i
      have hbusy : ∀ j, s.busy j = decide (i = j) := fun j => by rw [busy, hrouter]
      have hwrapper : s.wrapper = none := by
        rw [wrapper, hrouter]
        split
        · next heq =>
            cases heq
            exact absurd rfl (hnot _)
        · rfl
      have hhandled := hintact.handled
      rw [SHMClient.unhandled, hbusy, if_pos (decide_eq_true rfl)] at hhandled
      exact h.leave hbusy hwrapper (SHMClient.count_held_pop hfront)
        ⟨hhandled, hintact.retrieved, hintact.reading, hintact.allocated⟩
  · exact h

theorem Sound.step (h : s.Sound) (i : Step n) : (s.step i).Sound := by
  cases i with
  | allocate i object data => exact h.allocate i object data
  | exhausted i storage => exact h.exhausted i storage
  | push i => exact h.push i
  | release i => exact h.release i
  | handle i => exact h.handle i
  | wrap interested => exact h.wrap interested
  | forward => exact h.forward
  | unwrap => exact h.unwrap
  | finish => exact h.finish
  | retrieve i => exact h.retrieve i
  | pop i => exact h.pop i

/-! ## Clients that end -/

/-- The clients whose process has ended. -/
def gone (s : Interprocess n) : Nat :=
  tally (fun c : SHMClient => if c.sender = .ended then 1 else 0) s.clients

/-- A client that has not ended by that. -/
theorem gone_setClient {i : Fin n} {c : SHMClient}
    (h : c.sender = .ended ↔ (s.clients i).sender = .ended) : (s.setClient i c).gone = s.gone := by
  have hmoved := tally_update (fun c : SHMClient => if c.sender = .ended then 1 else 0)
    s.clients i c
  simp only [h] at hmoved
  exact Nat.add_right_cancel hmoved

theorem gone_step {i : Step n} (h : ∀ j storage, i ≠ .exhausted j storage) :
    (s.step i).stranded = s.stranded ∧ (s.step i).gone = s.gone := by
  cases i with
  | allocate i object data =>
      simp only [step, allocate]
      split
      · next hfree => exact ⟨rfl, gone_setClient (by rw [hfree.1]; exact iff_of_false nofun nofun)⟩
      · exact ⟨rfl, rfl⟩
  | exhausted i storage => exact absurd rfl (h i storage)
  | push i =>
      simp only [step, push]
      split
      · next object data hsender =>
          split
          · exact ⟨rfl, gone_setClient (by rw [hsender]; exact iff_of_false nofun nofun)⟩
          · exact ⟨rfl, gone_setClient (by rw [hsender]; exact iff_of_false nofun nofun)⟩
      · exact ⟨rfl, rfl⟩
  | release i =>
      simp only [step, release]
      split
      · next object hsender =>
          exact ⟨rfl, gone_setClient (by rw [hsender]; exact iff_of_false nofun nofun)⟩
      · exact ⟨rfl, rfl⟩
  | handle i =>
      simp only [step, handle]
      split
      · split
        · exact ⟨rfl, gone_setClient Iff.rfl⟩
        · exact ⟨rfl, rfl⟩
      · exact ⟨rfl, rfl⟩
  | wrap interested =>
      simp only [step, wrap]
      split <;> exact ⟨rfl, rfl⟩
  | forward =>
      simp only [step, forward]
      split
      · split
        · exact ⟨rfl, gone_setClient Iff.rfl⟩
        · exact ⟨rfl, rfl⟩
      · exact ⟨rfl, rfl⟩
  | unwrap =>
      simp only [step, unwrap]
      split <;> exact ⟨rfl, rfl⟩
  | finish =>
      simp only [step, finish]
      split
      · exact ⟨rfl, rfl⟩
      · exact ⟨rfl, gone_setClient Iff.rfl⟩
      · exact ⟨rfl, rfl⟩
  | retrieve i =>
      simp only [step, retrieve]
      split
      · split
        · exact ⟨rfl, gone_setClient Iff.rfl⟩
        · exact ⟨rfl, rfl⟩
      · exact ⟨rfl, rfl⟩
  | pop i =>
      simp only [step, pop]
      split
      · exact ⟨rfl, gone_setClient Iff.rfl⟩
      · exact ⟨rfl, rfl⟩

/-- A client leaves one storage behind at most. -/
theorem stranded_step (h : s.stranded ≤ s.gone) (i : Step n) :
    (s.step i).stranded ≤ (s.step i).gone := by
  by_cases hends : ∃ j storage, i = .exhausted j storage
  · obtain ⟨j, storage, rfl⟩ := hends
    simp only [step, exhausted]
    split
    · next hidle =>
        have hmoved := tally_update (fun c : SHMClient => if c.sender = .ended then 1 else 0)
          s.clients j { s.clients j with sender := .ended }
        rw [hidle] at hmoved
        have hone : (s.setClient j { s.clients j with sender := .ended }).gone =
            s.gone + 1 := hmoved
        show (if storage then s.stranded + 1 else s.stranded) ≤ gone (s.setClient j _)
        rw [hone]
        split <;> omega
    · exact h
  · obtain ⟨hstranded, hgone⟩ := s.gone_step fun j storage heq => hends ⟨j, storage, heq⟩
    rw [hstranded, hgone]
    exact h

/-- In every interleaving of any number of clients with the router, every reader finds in the
buffer what its sender has put there: what the router's callback has been given of a client's
messages, and what waits for it, is what the client's queue had room for, and what a client's
callback has been given, and what waits for it, is what the router has sent the client as far
as its queue had room. -/
theorem passed_by_pointer (steps : List (Step n)) :
    Always Interprocess.step (fun s => s.segment.misused = false ∧ s.stray = false ∧
      ∀ i, (s.clients i).Intact s.segment.content (s.busy i)) (new : Interprocess n) steps := by
  have hsound : Always Interprocess.step Sound (new : Interprocess n) steps :=
    always_of_step (fun _ i h => h.step i) sound_new
  exact hsound.mono fun s h => ⟨h.accounts.unharmed, h.stray, h.intact⟩

/-- A buffer is in the segment as long as there is a pointer to it, and no longer, and there is
nothing else there but a storage of each client that has ended. -/
theorem segment_accounted (steps : List (Step n)) :
    Always Interprocess.step (fun s =>
      (∀ a, s.segment.useCount a = s.references a) ∧
        (∀ a, s.segment.content a ≠ none ↔ s.references a ≠ 0) ∧
        (s.router = none → (∀ i, (s.clients i).held = []) → ∀ a, s.segment.content a = none) ∧
        s.stranded ≤ s.gone)
      (new : Interprocess n) steps := by
  have hsound : Always Interprocess.step (fun s => s.Sound ∧ s.stranded ≤ s.gone)
      (new : Interprocess n) steps :=
    always_of_step (fun _ i h => ⟨h.1.step i, stranded_step h.2 i⟩) ⟨sound_new, Nat.zero_le _⟩
  refine hsound.mono fun s h => ?_
  obtain ⟨h, hstranded⟩ := h
  refine ⟨h.accounts.count, h.accounts.there, fun hrouter hheld a => ?_, hstranded⟩
  have hnone : s.references a = 0 := by
    rw [references, wrapper, hrouter, tally_eq_zero.mpr fun i => by rw [hheld i]; rfl]
    rfl
  by_contra hsome
  exact (h.accounts.there a).mp hsome hnone

end Interprocess

end Fastpath
