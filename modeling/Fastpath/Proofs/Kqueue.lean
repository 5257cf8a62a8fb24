import Fastpath.Lib.Exec
import Fastpath.Model.Kqueue

/-!
# Demultiplexing a batch

A read event passes the test for writing as well, since the constant for reading
has all its bits set. And the loops that repeat a callback go over the batch
from its beginning, whichever event they are for: they call back for the first
events of the batch, in their order, as long as these have data left to count.

So a batch is handled as it should be if none of its events is a read event, and
if what the loops do happens to be what every timer and signal event asks for.
-/

namespace Fastpath.Kqueue

open Fastpath.Lib

/-- What is to be invoked for an event. -/
def expected (e : KEvent) : List Invocation :=
  match e.filter with
  | .read => [.io e.identifier ⟨true, false⟩]
  | .write => [.io e.identifier ⟨false, true⟩]
  | .timer => List.replicate e.data.toInt.toNat (.timer e.identifier)
  | .signal => List.replicate e.data.toInt.toNat (.signal (-1) e.identifier)

/-- The events are handled in order, each as it should be. -/
def Demultiplexes (batch : List KEvent) : Prop :=
  ∀ q : Kqueue, q.events ≠ 0 →
    run (.events batch) q = .ok (0, batch.map expected, { q with errCount := 0 })

/-- The first `count` events are all for the descriptor of `e` and each counts beyond its place in
the batch; the next one does not. -/
def Leads (batch : List KEvent) (e : KEvent) : Prop :=
  let count := e.data.toInt.toNat
  (∃ f, batch[count]? = some f ∧ f.data.toInt ≤ count) ∧
    ∀ i < count, ∃ f, batch[i]? = some f ∧ i < f.data.toInt ∧ f.identifier = e.identifier

/-- What an event needs of its batch to be handled as it should be. -/
def Suits (batch : List KEvent) (e : KEvent) : Prop :=
  match e.filter with
  | .read => False
  | .write => True
  | .timer | .signal => Leads batch e

theorem map_cons_eq_iff {x : Except Fault (List Invocation)} {c d : Invocation}
    {calls : List Invocation} :
    x.map (d :: ·) = .ok (c :: calls) ↔ d = c ∧ x = .ok calls := by
  cases x with
  | ok calls' =>
      refine ⟨fun h => ?_, fun ⟨hd, hx⟩ => ?_⟩
      · cases h
        exact ⟨rfl, rfl⟩
      · cases hx
        rw [hd]
        rfl
  | error fault => exact iff_of_false (fun h => by cases h) fun h => by cases h.2

theorem map_cons_ne_nil {x : Except Fault (List Invocation)} {d : Invocation} :
    x.map (d :: ·) ≠ .ok [] := by
  intro h
  cases x <;> cases h

/-- The first `count` entries count beyond `i` and their places, and are called back for with `c`;
the next one does not count so far. -/
def Repeats (call : KEvent → Invocation) (c : Invocation) (i count : Nat) (batch : List KEvent) :
    Prop :=
  (∃ f, batch[count]? = some f ∧ f.data.toInt ≤ i + count) ∧
    ∀ j < count, ∃ f, batch[j]? = some f ∧ i + j < f.data.toInt ∧ call f = c

section Repeats

variable {call : KEvent → Invocation} {c : Invocation} {i count : Nat} {e : KEvent}
  {batch behind : List KEvent}

theorem repeats_zero_cons : Repeats call c i 0 (e :: behind) ↔ e.data.toInt ≤ i := by
  constructor
  · intro h
    obtain ⟨⟨f, hf, hle⟩, -⟩ := h
    cases hf
    omega
  · intro hle
    exact ⟨⟨e, rfl, by omega⟩, fun j hj => absurd hj (Nat.not_lt_zero j)⟩

theorem repeats_succ_cons :
    Repeats call c i (count + 1) (e :: behind) ↔
      i < e.data.toInt ∧ call e = c ∧ Repeats call c (i + 1) count behind := by
  constructor
  · intro h
    obtain ⟨⟨f, hf, hle⟩, h⟩ := h
    obtain ⟨g, hg, hlt, hcall⟩ := h 0 (Nat.zero_lt_succ _)
    cases hg
    refine ⟨by omega, hcall, ⟨f, hf, by omega⟩, fun j hj => ?_⟩
    obtain ⟨k, hk, hlt', hcall'⟩ := h (j + 1) (by omega)
    exact ⟨k, hk, by omega, hcall'⟩
  · intro h
    obtain ⟨hlt, hcall, ⟨f, hf, hle⟩, h⟩ := h
    refine ⟨⟨f, hf, by omega⟩, fun j hj => ?_⟩
    cases j with
    | zero => exact ⟨e, rfl, by omega, hcall⟩
    | succ j =>
        obtain ⟨g, hg, hlt', hcall'⟩ := h j (by omega)
        exact ⟨g, hg, by omega, hcall'⟩

/-- The loop from `i` on invokes `c` a given number of times exactly if it gets that far, with `c`
each time, and no further. -/
theorem counted_eq_iff :
    counted call i batch = .ok (List.replicate count c) ↔ Repeats call c i count batch := by
  induction batch generalizing count i with
  | nil => exact iff_of_false (fun h => by cases h) fun ⟨⟨f, hf, _⟩, _⟩ => by cases hf
  | cons e behind ih =>
      rw [counted]
      cases count with
      | zero =>
          rw [repeats_zero_cons]
          split
          · next hmore => exact iff_of_false map_cons_ne_nil (by omega)
          · next hdone => exact iff_of_true rfl (by omega)
      | succ count =>
          rw [repeats_succ_cons]
          split
          · next hmore =>
              rw [List.replicate_succ, map_cons_eq_iff, ih]
              exact (and_iff_right hmore).symm
          · next hdone => exact iff_of_false (fun h => by cases h) fun h => hdone h.1

end Repeats

/-- Reading passes every test, and writing also that for a signal. -/
theorem passes_iff (e : KEvent) (constant : EventFilter) :
    e.passes constant = true ↔
      e.filter = .read ∨ e.filter = constant ∨ e.filter = .write ∧ constant = .signal := by
  rw [KEvent.passes, decide_eq_true_iff]
  generalize e.filter = filter
  cases filter <;> cases constant <;> decide

theorem handle_eq (batch : List KEvent) (e : KEvent) :
    handle batch e =
      match e.filter with
      | .read => .ok [.io e.identifier ⟨true, true⟩]
      | .write => .ok [.io e.identifier ⟨false, true⟩]
      | .timer => counted (fun f => .timer f.identifier) 0 batch
      | .signal => counted (fun f => .signal (-1) f.identifier) 0 batch := by
  rw [handle]
  simp only [passes_iff]
  cases e.filter <;> rfl

theorem handle_eq_iff (batch : List KEvent) (e : KEvent) :
    handle batch e = .ok (expected e) ↔ Suits batch e := by
  rw [handle_eq, expected, Suits]
  cases e.filter with
  | read =>
      refine iff_of_false (fun h => ?_) id
      cases h
  | write => exact iff_of_true rfl trivial
  | timer =>
      refine counted_eq_iff.trans ?_
      simp only [Repeats, Nat.cast_zero, zero_add, Invocation.timer.injEq]
      exact Iff.rfl
  | signal =>
      refine counted_eq_iff.trans ?_
      simp only [Repeats, Nat.cast_zero, zero_add, Invocation.signal.injEq, true_and]
      exact Iff.rfl

/-- A batch is handled as it should be exactly if it suits every one of its events. -/
theorem demultiplexes_iff {batch : List KEvent} (hbatch : batch ≠ []) :
    Demultiplexes batch ↔ ∀ e ∈ batch, Suits batch e := by
  have hrun (q : Kqueue) (hevents : q.events ≠ 0) : run (.events batch) q =
      (batch.mapM (handle batch)).map fun calls => (0, calls, { q with errCount := 0 }) := by
    cases batch with
    | nil => exact absurd rfl hbatch
    | cons e behind =>
        rw [run, if_pos hevents]
        exact hbatch
  have hsuits : batch.mapM (handle batch) = .ok (batch.map expected) ↔
      ∀ e ∈ batch, Suits batch e := by
    rw [mapM_eq_iff]
    exact forall₂_congr fun e _ => handle_eq_iff batch e
  rw [← hsuits]
  constructor
  · intro h
    have hone := h ⟨1, 0⟩ one_ne_zero
    rw [hrun _ one_ne_zero] at hone
    cases hcalls : batch.mapM (handle batch) with
    | ok calls =>
        rw [hcalls] at hone
        exact congrArg Except.ok (Prod.mk.inj (Prod.mk.inj (Except.ok.inj hone)).2).1
    | error e =>
        rw [hcalls] at hone
        cases hone
  · intro h q hevents
    rw [hrun q hevents, h]
    rfl

/-- A timer that has run out once, in front of a socket that can be written to. -/
theorem led_demultiplexes :
    Demultiplexes [⟨5, .timer, 1⟩, ⟨9, .write, 0⟩] :=
  (demultiplexes_iff (by decide)).mpr fun e he => by
    rcases List.mem_cons.mp he with rfl | he
    · refine ⟨⟨_, rfl, by decide⟩, fun i hi => ⟨⟨5, .timer, 1⟩, ?_⟩⟩
      obtain rfl : i = 0 := Nat.lt_one_iff.mp hi
      exact ⟨rfl, by decide, rfl⟩
    · rw [List.mem_singleton.mp he]
      trivial

/-- A readable socket is reported as writable as well, and behind another event a timer is called
back for under the number of that one. -/
theorem mixed_not_demultiplexes :
    run (.events [⟨5, .read, 1⟩]) ⟨1, 0⟩ = .ok (0, [[.io 5 ⟨true, true⟩]], ⟨1, 0⟩) ∧
      run (.events [⟨9, .write, 1⟩, ⟨5, .timer, 1⟩]) ⟨1, 0⟩ =
        .ok (0, [[.io 9 ⟨false, true⟩], [.timer 9]], ⟨1, 0⟩) ∧
      ¬ Demultiplexes [⟨5, .read, 1⟩] ∧
      ¬ Demultiplexes [⟨9, .write, 1⟩, ⟨5, .timer, 1⟩] := by
  refine ⟨by decide, by decide, fun h => ?_, fun h => ?_⟩
  · exact absurd (h ⟨1, 0⟩ one_ne_zero) (by decide)
  · exact absurd (h ⟨1, 0⟩ one_ne_zero) (by decide)

end Fastpath.Kqueue
