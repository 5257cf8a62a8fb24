import Mathlib.Data.List.Basic
import Mathlib.Logic.Function.Basic
import Fastpath.Lib.Steps

/-!
# A broker

Clients join and leave, subscribe to patterns and publish messages. The broker
passes a message on, once, to every client that is there and has a pattern for
it, the publisher included, and it does so before anything else happens. A
client that joins has no patterns, whoever was there before under its name.

A run of a broker is a list of events, and everything about it can be said of
that list. `owed` is what one client has coming: it looks at the client's own
subscriptions and at what is published, and at nothing else.
-/

namespace Fastpath.Lib

structure Broker (κ π μ : Type) where
  connected : List κ
  patterns : κ → List π
  /-- What has been published, with its publisher. -/
  log : List (κ × μ)
  /-- What a client has been passed since it joined. -/
  out : κ → List μ

namespace Broker

inductive Event (κ π μ : Type) where
  | join (k : κ)
  | leave (k : κ)
  | subscribe (k : κ) (p : π)
  | publish (k : κ) (m : μ)

variable {κ π μ : Type} [DecidableEq κ] (covers : π → μ → Bool)

def new : Broker κ π μ := ⟨[], fun _ => [], [], fun _ => []⟩

def step (b : Broker κ π μ) : Event κ π μ → Broker κ π μ
  | .join k =>
      { b with
        connected := b.connected ++ [k]
        patterns := Function.update b.patterns k []
        out := Function.update b.out k [] }
  | .leave k => { b with connected := b.connected.erase k }
  | .subscribe k p =>
      { b with patterns := Function.update b.patterns k (b.patterns k ++ [p]) }
  | .publish k m =>
      { b with
        log := b.log ++ [(k, m)]
        out := fun j =>
          if j ∈ b.connected ∧ (b.patterns j).any (covers · m) then b.out j ++ [m] else b.out j }

/-- The broker that a history leaves. -/
def reached (history : List (Event κ π μ)) : Broker κ π μ := after (step covers) new history

/-- A client joins under a name nobody has. -/
def Fresh (b : Broker κ π μ) : Event κ π μ → Prop
  | .join k => k ∉ b.connected
  | _ => True

/-- What a client with the patterns `ps` has coming from the events to come. -/
def owed (j : κ) : List π → List (Event κ π μ) → List μ
  | _, [] => []
  | ps, .subscribe k p :: events => owed j (if k = j then ps ++ [p] else ps) events
  | ps, .publish _ m :: events =>
      if ps.any (covers · m) then m :: owed j ps events else owed j ps events
  | ps, .join _ :: events => owed j ps events
  | ps, .leave _ :: events => owed j ps events

/-- The event is not one by which the client comes or goes. -/
def Stays (j : κ) : Event κ π μ → Prop
  | .join k => k ≠ j
  | .leave k => k ≠ j
  | _ => True

variable {covers} {b : Broker κ π μ} {j : κ}

theorem reached_append (history events : List (Event κ π μ)) :
    reached covers (history ++ events) = after (step covers) (reached covers history) events :=
  after_append _ _ _

theorem mem_connected_join : j ∈ (b.step covers (.join j)).connected :=
  List.mem_append_right _ (List.mem_singleton_self j)

@[simp]
theorem out_join_self : (b.step covers (.join j)).out j = [] := Function.update_self _ _ _

@[simp]
theorem patterns_join_self : (b.step covers (.join j)).patterns j = [] :=
  Function.update_self _ _ _

theorem step_connected (h : j ∈ b.connected) {e : Event κ π μ} (hstays : Stays j e) :
    j ∈ (b.step covers e).connected := by
  cases e with
  | join k => exact List.mem_append_left _ h
  | leave k => exact (List.mem_erase_of_ne (Ne.symm hstays)).mpr h
  | subscribe k p => exact h
  | publish k m => exact h

theorem after_connected (h : j ∈ b.connected) {events : List (Event κ π μ)}
    (hstays : ∀ e ∈ events, Stays j e) : j ∈ (after (step covers) b events).connected := by
  induction events generalizing b with
  | nil => exact h
  | cons e events ih =>
      exact ih (step_connected h (hstays e List.mem_cons_self))
        fun e he => hstays e (List.mem_cons_of_mem _ he)

/-- As long as a client stays it is passed what it has coming, and nothing else. -/
theorem out_after (h : j ∈ b.connected) {events : List (Event κ π μ)}
    (hstays : ∀ e ∈ events, Stays j e) :
    (after (step covers) b events).out j =
      b.out j ++ owed covers j (b.patterns j) events := by
  induction events generalizing b with
  | nil => exact (List.append_nil _).symm
  | cons e events ih =>
      have hthis := hstays e List.mem_cons_self
      have hmem : j ∈ (b.step covers e).connected := step_connected h hthis
      have hnext := ih hmem fun e he => hstays e (List.mem_cons_of_mem _ he)
      rw [after, List.foldl_cons]
      refine Eq.trans hnext ?_
      cases e with
      | join k =>
          show Function.update b.out k [] j ++
            owed covers j (Function.update b.patterns k [] j) events = _
          rw [Function.update_of_ne (Ne.symm hthis), Function.update_of_ne (Ne.symm hthis)]
          rfl
      | leave k => rfl
      | subscribe k p =>
          show b.out j ++
            owed covers j (Function.update b.patterns k (b.patterns k ++ [p]) j) events = _
          rw [owed, Function.update_apply]
          by_cases hk : k = j
          · rw [if_pos hk, if_pos hk.symm, hk]
          · rw [if_neg hk, if_neg (Ne.symm hk)]
      | publish k m =>
          show (if j ∈ b.connected ∧ (b.patterns j).any (covers · m) then b.out j ++ [m]
            else b.out j) ++ owed covers j (b.patterns j) events = _
          rw [owed]
          by_cases hm : (b.patterns j).any (covers · m) = true
          · rw [if_pos ⟨h, hm⟩, if_pos hm, List.append_assoc, List.singleton_append]
          · rw [if_neg (fun hboth => hm hboth.2), if_neg hm]

/-- A client that has joined and stayed has been passed what its patterns cover of what was
published since. -/
theorem out_since_join {history events : List (Event κ π μ)}
    (hstays : ∀ e ∈ events, Stays j e) :
    (reached covers (history ++ .join j :: events)).out j = owed covers j [] events := by
  have hmem : j ∈ ((reached covers history).step covers (.join j)).connected := mem_connected_join
  have hout : (after (step covers) _ events).out j = _ := out_after hmem hstays
  rw [out_join_self, patterns_join_self, List.nil_append] at hout
  rw [reached_append]
  exact hout

/-- What is published in a list of events. -/
def published : List (Event κ π μ) → List μ
  | [] => []
  | .publish _ m :: events => m :: published events
  | .join _ :: events => published events
  | .leave _ :: events => published events
  | .subscribe _ _ :: events => published events

omit [DecidableEq κ] in
theorem published_append (events more : List (Event κ π μ)) :
    published (events ++ more) = published events ++ published more := by
  induction events with
  | nil => rfl
  | cons e events ih =>
      cases e with
      | join k => exact ih
      | leave k => exact ih
      | subscribe k p => exact ih
      | publish k m => exact congrArg (m :: ·) ih

/-- All clients are passed messages in one order, that of their publication. -/
theorem owed_sublist (ps : List π) (events : List (Event κ π μ)) :
    List.Sublist (owed covers j ps events) (published events) := by
  induction events generalizing ps with
  | nil => exact List.Sublist.refl _
  | cons e events ih =>
      cases e with
      | join k => exact ih ps
      | leave k => exact ih ps
      | subscribe k p => exact ih _
      | publish k m =>
          rw [owed]
          split
          · exact (ih ps).cons_cons m
          · exact (ih ps).cons m

/-- The patterns of a client after a list of events, if it had `ps` before. -/
def subscribed (j : κ) : List π → List (Event κ π μ) → List π
  | ps, [] => ps
  | ps, .subscribe k p :: events => subscribed j (if k = j then ps ++ [p] else ps) events
  | ps, .publish _ _ :: events => subscribed j ps events
  | ps, .join _ :: events => subscribed j ps events
  | ps, .leave _ :: events => subscribed j ps events

theorem owed_append (ps : List π) (events more : List (Event κ π μ)) :
    owed covers j ps (events ++ more) =
      owed covers j ps events ++ owed covers j (subscribed j ps events) more := by
  induction events generalizing ps with
  | nil => rfl
  | cons e events ih =>
      cases e with
      | join k => exact ih ps
      | leave k => exact ih ps
      | subscribe k p => exact ih _
      | publish k m =>
          rw [List.cons_append, owed, owed, subscribed, ih]
          split <;> rfl

/-- Of what one of its patterns covers a client is owed everything. -/
theorem filter_owed {p : π} {ps : List π} (hp : p ∈ ps) (events : List (Event κ π μ)) :
    (owed covers j ps events).filter (covers p) = (published events).filter (covers p) := by
  induction events generalizing ps with
  | nil => rfl
  | cons e events ih =>
      cases e with
      | join k => exact ih hp
      | leave k => exact ih hp
      | subscribe k p' =>
          refine ih ?_
          split
          · exact List.mem_append_left _ hp
          · exact hp
      | publish k m =>
          rw [owed, published, List.filter_cons]
          by_cases hm : covers p m = true
          · rw [if_pos (List.any_eq_true.mpr ⟨p, hp, hm⟩), List.filter_cons_of_pos hm, ih hp,
              if_pos hm]
          · rw [if_neg hm]
            split
            · rw [List.filter_cons_of_neg hm, ih hp]
            · exact ih hp

theorem nodup_step (h : b.connected.Nodup) {e : Event κ π μ} (hfresh : b.Fresh e) :
    (b.step covers e).connected.Nodup := by
  cases e with
  | join k =>
      refine List.nodup_append.mpr ⟨h, List.pairwise_singleton _ k, fun a ha c hc heq => ?_⟩
      rw [List.mem_singleton.mp hc] at heq
      exact hfresh (heq ▸ ha)
  | leave k => exact h.erase k
  | subscribe k p => exact h
  | publish k m => exact h

end Broker

end Fastpath.Lib
