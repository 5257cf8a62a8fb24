import Fastpath.Lib.Steps
import Fastpath.Model.ServerTransport

/-!
# One connection for each report

Connections are accepted in the order in which they were made, but a client that
connects while the descriptor is on the list already has no report of its own.
There is one connection more than there are reports for each such client, and
nothing makes up for it: a router that is left alone goes to sleep with that many
clients waiting, whoever they are by then, unless an `accept` has failed before.
-/

namespace Fastpath

open Fastpath.Lib

namespace ServerTransport

variable {t : ServerTransport}

/-- The reports that are still to come of what has happened, or have just come. -/
def reports (t : ServerTransport) : Nat :=
  match t.router with
  | .unregistered => if t.pending.isEmpty then 0 else 1
  | .waiting => if t.ready then 1 else 0
  | .called => if t.ready then 2 else 1
  | .ended => 0

/-- The client's connection is reported together with one before it. -/
def Merges (t : ServerTransport) : Step → Prop
  | .connect _ => t.ready = true ∨ t.router = .unregistered ∧ t.pending ≠ []
  | .advance | .fail => False

instance (t : ServerTransport) (i : Step) : Decidable (t.Merges i) :=
  match i with
  | .connect _ => inferInstanceAs (Decidable (t.ready = true ∨ t.router = .unregistered ∧ _))
  | .advance | .fail => inferInstanceAs (Decidable False)

/-- How many of the clients of a run have no report of their own. -/
def merged (t : ServerTransport) : List Step → Nat
  | [] => 0
  | i :: steps => (if t.Merges i then 1 else 0) + (t.step i).merged steps

/-- A client that connects is reported, unless it is merged. -/
theorem reports_connect (hrouter : t.router ≠ .ended)
    (hunregistered : t.router = .unregistered → t.ready = false) (client : Nat) :
    (t.connect client).reports + (if t.Merges (.connect client) then 1 else 0) =
      t.reports + 1 := by
  cases hstate : t.router with
  | unregistered =>
      -- one report for all of them, when the descriptor is added
      have hready := hunregistered hstate
      cases hpending : t.pending with
      | nil => simp [reports, connect, Merges, hstate, hready, hpending]
      | cons first rest => simp [reports, connect, Merges, hstate, hready, hpending]
  | waiting => cases hready : t.ready <;> simp [reports, connect, Merges, hstate, hready]
  | called => cases hready : t.ready <;> simp [reports, connect, Merges, hstate, hready]
  | ended => exact absurd hstate hrouter

structure Sound (missed : Nat) (t : ServerTransport) : Prop where
  ordered : t.accepted ++ t.pending = t.connected
  counted : t.router ≠ .ended → t.pending.length = t.reports + missed
  unregistered : t.router = .unregistered → t.ready = false

theorem sound_new : new.Sound 0 := ⟨rfl, fun _ => rfl, fun _ => rfl⟩

namespace Sound

variable {missed : Nat}

theorem connect (h : t.Sound missed) (client : Nat) :
    (t.connect client).Sound ((if t.Merges (.connect client) then 1 else 0) + missed) := by
  refine ⟨?_, fun hrouter => ?_, fun hrouter => ?_⟩
  · show t.accepted ++ (t.pending ++ [client]) = t.connected ++ [client]
    rw [← List.append_assoc, h.ordered]
  · have hrouter : t.router ≠ .ended := hrouter
    have hcounted := h.counted hrouter
    have hreports := reports_connect hrouter h.unregistered client
    show (t.pending ++ [client]).length = _
    rw [List.length_append, List.length_singleton]
    omega
  · have hrouter : t.router = .unregistered := hrouter
    show decide (t.router ≠ .unregistered) = false
    simp [hrouter]

theorem advance (h : t.Sound missed) : t.advance.Sound missed := by
  have hordered := h.ordered
  have hcounted := h.counted
  cases hrouter : t.router with
  | unregistered =>
      simp only [ServerTransport.advance, hrouter]
      refine ⟨hordered, fun _ => ?_, nofun⟩
      replace hcounted := hcounted (by rw [hrouter]; nofun)
      simp only [reports, hrouter] at hcounted
      cases hpending : t.pending with
      | nil => simpa [reports, hpending] using hcounted
      | cons client rest => simpa [reports, hpending] using hcounted
  | waiting =>
      simp only [ServerTransport.advance, hrouter]
      split
      · next hready =>
          -- what is on the list is reported with a connection to accept
          replace hcounted := hcounted (by rw [hrouter]; nofun)
          simp only [reports, hrouter, if_pos hready] at hcounted
          have hpending : t.pending ≠ [] := List.ne_nil_of_length_pos (by omega)
          simp only [List.isEmpty_eq_false_iff.mpr hpending, Bool.false_eq_true, if_false]
          exact ⟨hordered, fun _ => hcounted, nofun⟩
      · exact h
  | called =>
      simp only [ServerTransport.advance, hrouter]
      have hrest : t.pending.length = 1 + (if t.ready then 1 else 0) + missed := by
        replace hcounted := hcounted (by rw [hrouter]; nofun)
        simp only [reports, hrouter] at hcounted
        rw [hcounted]
        split <;> rfl
      split
      · next hnil =>
          rw [hnil, List.length_nil] at hrest
          omega
      · next client rest hpending =>
          refine ⟨?_, fun _ => ?_, nofun⟩
          · rw [← hordered, hpending, List.append_assoc]
            rfl
          · rw [hpending, List.length_cons] at hrest
            simp only [reports]
            omega
  | ended =>
      simp only [ServerTransport.advance, hrouter]
      exact h

theorem fail (h : t.Sound missed) : t.fail.Sound missed := by
  rw [ServerTransport.fail]
  split
  · exact ⟨h.ordered, fun hrouter => absurd rfl hrouter, nofun⟩
  · exact h

theorem step (h : t.Sound missed) (i : Step) :
    (t.step i).Sound ((if t.Merges i then 1 else 0) + missed) := by
  cases i with
  | connect client => exact h.connect client
  | advance =>
      rw [if_neg (show ¬ t.Merges .advance from id), Nat.zero_add]
      exact h.advance
  | fail =>
      rw [if_neg (show ¬ t.Merges .fail from id), Nat.zero_add]
      exact h.fail

theorem after (h : t.Sound missed) (steps : List Step) :
    (Lib.after ServerTransport.step t steps).Sound (t.merged steps + missed) := by
  induction steps generalizing t missed with
  | nil => exact (Nat.zero_add missed).symm ▸ h
  | cons i steps ih =>
      have hrest := ih (h.step i)
      rw [← Nat.add_assoc, Nat.add_comm ((t.step i).merged steps)] at hrest
      exact hrest

end Sound

/-- The router alone merges nothing. -/
theorem merged_alone (t : ServerTransport) (k : Nat) :
    t.merged (List.replicate k .advance) = 0 := by
  induction k generalizing t with
  | zero => rfl
  | succ k ih =>
      rw [List.replicate_succ, merged, if_neg (show ¬ t.Merges .advance from id), Nat.zero_add]
      exact ih _

/-- A router that is left alone needs at most so many accesses until it sleeps. -/
def distance (t : ServerTransport) : Nat :=
  match t.router with
  | .unregistered => 3
  | .waiting => if t.ready then 2 else 0
  | .called => if t.ready then 3 else 1
  | .ended => 0

theorem distance_le (t : ServerTransport) : t.distance ≤ 3 := by
  rw [distance]
  split
  · exact Nat.le_refl _
  · split <;> omega
  · split <;> omega
  · exact Nat.zero_le _

/-- What the router does is nothing to the clients. -/
theorem advance_connected (t : ServerTransport) : t.advance.connected = t.connected := by
  rw [advance.eq_def]
  split
  · rfl
  · split <;> rfl
  · split <;> rfl
  · rfl

/-- Every access brings it nearer. -/
theorem distance_advance (t : ServerTransport) : t.advance.distance ≤ t.distance - 1 := by
  cases hrouter : t.router with
  | unregistered =>
      simp only [advance, distance, hrouter]
      split <;> omega
  | waiting =>
      simp only [advance, hrouter]
      split
      · next hready =>
          simp only [distance, hrouter, if_pos hready]
          cases t.pending.isEmpty with
          | true => exact Nat.zero_le _
          | false => exact Nat.le_refl _
      · next hready =>
          simp only [distance, hrouter, if_neg hready]
          exact Nat.le_refl _
  | called =>
      simp only [advance, hrouter]
      split <;> (simp only [distance, hrouter]; split <;> omega)
  | ended =>
      simp only [advance, distance, hrouter]
      exact Nat.le_refl _

theorem alone (t : ServerTransport) (k : Nat) :
    let rest := after step t (List.replicate k .advance)
    rest.distance ≤ t.distance - k ∧ rest.connected = t.connected := by
  induction k generalizing t with
  | zero => exact ⟨Nat.le_refl _, rfl⟩
  | succ k ih =>
      obtain ⟨hdistance, hconnected⟩ := ih t.advance
      have hnearer := distance_advance t
      exact ⟨Nat.le_trans hdistance (by omega), hconnected.trans (advance_connected t)⟩

theorem asleep_of_distance {t : ServerTransport} (h : t.distance = 0) :
    t.router = .ended ∨ t.router = .waiting ∧ t.ready = false := by
  rw [distance] at h
  split at h
  · cases h
  · next hrouter => exact .inr ⟨hrouter, by simpa using h⟩
  · split at h <;> cases h
  · next hrouter => exact .inl hrouter

theorem merged_append (t : ServerTransport) (steps more : List Step) :
    t.merged (steps ++ more) = t.merged steps + (after step t steps).merged more := by
  induction steps generalizing t with
  | nil => exact (Nat.zero_add _).symm
  | cons i steps ih =>
      rw [List.cons_append, merged, ih, merged, Nat.add_assoc]
      rfl

/-- No `accept` has failed, and the process has not ended. -/
theorem not_ended {steps : List Step} (h : .fail ∉ steps) (hrouter : t.router ≠ .ended) :
    (after step t steps).router ≠ .ended := by
  induction steps generalizing t with
  | nil => exact hrouter
  | cons i steps ih =>
      refine ih (fun hmem => h (List.mem_cons_of_mem _ hmem)) ?_
      cases i with
      | connect client => exact hrouter
      | fail => exact absurd List.mem_cons_self h
      | advance =>
          show t.advance.router ≠ .ended
          rw [advance.eq_def]
          split
          · nofun
          · split
            · show (if t.pending.isEmpty then Accepting.waiting else .called) ≠ .ended
              split <;> nofun
            · exact hrouter
          · split <;> nofun
          · exact hrouter

/-- However the clients connect, a router that is left alone comes to sleep within three
accesses, unless an `accept` has failed and ended it. It has then accepted the connections in the
order in which they were made, but for the last ones: as many as there were clients that connected
when an earlier connection was still to be reported. -/
theorem left_waiting (steps : List Step) (k : Nat) :
    let now := after step new steps
    let rest := after step new (steps ++ List.replicate (k + 3) .advance)
    rest.accepted ++ rest.pending = now.connected ∧
      (.fail ∈ steps ∧ rest.router = .ended ∨
        rest.router = .waiting ∧ rest.ready = false ∧ rest.pending.length = new.merged steps) := by
  intro now rest
  obtain ⟨hdistance, hconnected⟩ := alone now (k + 3)
  rw [← after_append] at hdistance hconnected
  have hle := now.distance_le
  have hzero : rest.distance = 0 := by
    have hrest : rest.distance ≤ now.distance - (k + 3) := hdistance
    omega
  have hsound := sound_new.after (steps ++ List.replicate (k + 3) .advance)
  refine ⟨hsound.ordered.trans hconnected, ?_⟩
  rcases asleep_of_distance hzero with hended | ⟨hrouter, hready⟩
  · refine .inl ⟨?_, hended⟩
    by_contra hnone
    refine not_ended (t := new) (fun hmem => ?_) nofun hended
    rcases List.mem_append.mp hmem with hmem | hmem
    · exact hnone hmem
    · cases List.eq_of_mem_replicate hmem
  · have hcounted := hsound.counted (hrouter.symm ▸ nofun)
    rw [reports, hrouter, hready, merged_append, merged_alone] at hcounted
    exact .inr ⟨hrouter, hready, hcounted.trans (by simp)⟩

/-- Two clients connect at once, and the second waits for a third. -/
example :
    let rest := after step new (.advance :: .connect 1 :: .connect 2 :: List.replicate 5 .advance)
    rest.accepted = [1] ∧ rest.pending = [2] ∧
      (after step rest (.connect 3 :: List.replicate 5 .advance)).accepted = [1, 2] := by
  decide

end ServerTransport

end Fastpath
