import Mathlib.Algebra.Order.BigOperators.Group.List
import Fastpath.Lib.Steps
import Fastpath.Model.SharedMemory
import Fastpath.Proofs.Encode

/-!
# What is lost between two processes

The queue between a sender and a receiver has places for 1024 pointers. A push
that finds it full is refused, and the sender does not look: it wakes the receiver
and answers `OK`. It does not come to that. A pointer keeps the storage of its
message in the segment, which is two kilobytes at the least, and the segment has
two megabytes: the memory is used up before the places are, and a sender that is
refused memory does not answer at all.

So a message is with the receiver or in the queue from its push on. The receiver
has seen an element from the end of its callback on, but the element keeps its
place in the queue until it is popped.
-/

namespace Fastpath

open Fastpath.Lib

/-- A storage is no smaller for what is encoded into it. -/
theorem SendCall.le_footprint (call : SendCall) : 2064 ≤ call.footprint := by
  have hkeeps := (call.msg.encode_encodes (MutableByteStorage.new 2048 call.heap)).2.keeps
  have hnew : (MutableByteStorage.new 2048 call.heap).capacity = allocateStorage 2048 := by
    simp only [MutableByteStorage.capacity, MutableByteStorage.new, List.length_nil,
      List.length_map, List.length_range, Nat.zero_add]
  have hsize : allocateStorage 2048 = 2048 := by decide
  rw [hnew, hsize] at hkeeps
  exact Nat.add_le_add_right hkeeps 16

namespace Exchange

/-- The elements of the queue the receiver has not been given. -/
def waiting (s : Exchange) : List SharedPtr :=
  if s.reading then s.queue.objectList.items.tail else s.queue.objectList.items

/-- What was retrieved and what is queued are the messages reported `OK`, in order, and
the one of the call that has yet to answer. -/
def Conserves (s : Exchange) : Prop :=
  s.retrieved ++ s.waiting = (s.reported ++ s.sending.toList).map SendCall.buffer

/-- No wake-up fails. -/
def Step.Woken : Step → Prop
  | .answer notified => notified = true
  | _ => True

instance (i : Step) : Decidable i.Woken :=
  match i with
  | .answer notified => inferInstanceAs (Decidable (notified = true))
  | .push _ _ | .front | .pop => .isTrue trivial

/-- What the elements of the queue keep is in the segment. -/
structure Fits (s : Exchange) : Prop where
  each : s.footprints.length = s.queue.objectList.items.length
  least : ∀ size ∈ s.footprints, 2064 ≤ size
  sum : s.footprints.sum ≤ segmentSize

theorem Fits.length_le {s : Exchange} (h : s.Fits) : s.queue.objectList.items.length ≤ 1016 := by
  have hsum := List.card_nsmul_le_sum s.footprints 2064 h.least
  have hsegment := h.sum
  rw [h.each, Nat.nsmul_eq_mul] at hsum
  rw [segmentSize] at hsegment
  omega

theorem Fits.not_full {s : Exchange} (h : s.Fits) : ¬ s.queue.objectList.Full := by
  have hlength := h.length_le
  rw [Fifo.Full]
  omega

/-- Nothing is lost, and what the receiver is at is still in the queue. -/
structure Sound (s : Exchange) : Prop where
  conserves : s.Conserves
  reading : s.reading = true → s.queue.objectList.items ≠ []
  fits : s.Fits

theorem sound_new (connected : Bool) : (new connected).Sound where
  conserves := rfl
  reading h := by cases h
  fits := ⟨rfl, List.forall_mem_nil _, Nat.zero_le _⟩

variable {s : Exchange}

theorem Sound.push (h : s.Sound) {call : SendCall} (hidle : s.sending = none)
    (hroom : s.footprints.sum + call.footprint ≤ segmentSize) : (s.push call).Sound := by
  have hitems := (Fifo.push_room h.fits.not_full call.buffer).2
  rw [Exchange.push, if_neg h.fits.not_full]
  refine ⟨?_, fun _ => ?_, ?_, ?_, ?_⟩
  · have hconserves := h.conserves
    rw [Conserves, waiting] at hconserves ⊢
    simp only [hidle, Option.toList_none, Option.toList_some, List.append_nil, List.map_append,
      List.map_cons, List.map_nil, SharedMemoryBuffer.notify, hitems] at hconserves ⊢
    rw [← hconserves, List.append_assoc]
    split
    · next hreading => rw [List.tail_append_of_ne_nil (h.reading hreading)]
    · rfl
  · simp only [SharedMemoryBuffer.notify, hitems]
    exact List.append_ne_nil_of_right_ne_nil _ (List.cons_ne_nil _ _)
  · simp only [SharedMemoryBuffer.notify, hitems, List.length_append, h.fits.each]
    rfl
  · intro size hsize
    rcases List.mem_append.mp hsize with hmem | hmem
    · exact h.fits.least size hmem
    · rw [List.mem_singleton.mp hmem]
      exact call.le_footprint
  · rw [List.sum_append, List.sum_singleton]
    exact hroom

theorem Sound.pop (h : s.Sound) (hreading : s.reading = true) : (s.step .pop).Sound := by
  rw [step, if_pos hreading]
  refine ⟨?_, fun hfalse => absurd hfalse Bool.false_ne_true, ?_, ?_, ?_⟩
  · have hconserves := h.conserves
    rw [Conserves, waiting, if_pos hreading] at hconserves
    rw [Conserves, waiting, if_neg Bool.false_ne_true]
    exact hconserves
  · simp only [Fifo.items_pop, List.length_tail, h.fits.each]
  · exact fun size hsize => h.fits.least size (List.mem_of_mem_tail hsize)
  · exact (List.tail_sublist s.footprints).sum_le_sum (fun _ _ => Nat.zero_le _) |>.trans h.fits.sum

theorem Sound.step (h : s.Sound) {i : Step} (hwoken : i.Woken) : (s.step i).Sound := by
  cases i with
  | push call served =>
      rw [Exchange.step]
      split
      · next hcall =>
          rw [Bool.and_eq_true, Bool.and_eq_true, Option.isNone_iff_eq_none] at hcall
          split
          · next hserved =>
              rw [Bool.and_eq_true, decide_eq_true_iff] at hserved
              exact h.push hcall.1.1 hserved.2
          · exact ⟨h.conserves, h.reading, h.fits.each, h.fits.least, h.fits.sum⟩
      · exact h
  | answer notified =>
      cases hsending : s.sending with
      | none => rwa [Exchange.step, hsending]
      | some call =>
          have hok : notified = true := hwoken
          have hconserves := h.conserves
          rw [Exchange.step, hsending]
          refine ⟨?_, h.reading, h.fits.each, h.fits.least, h.fits.sum⟩
          rw [Conserves, hsending] at hconserves
          rw [Conserves, hok]
          simp only [if_true, Option.toList_none, List.append_nil]
          exact hconserves
  | front =>
      have hconserves := h.conserves
      rw [Exchange.step]
      split
      · next ptr rest hreading hitems =>
          refine ⟨?_, fun _ => ?_, h.fits.each, h.fits.least, h.fits.sum⟩
          · rw [Conserves, waiting, hreading, if_neg Bool.false_ne_true, hitems] at hconserves
            rw [Conserves, waiting, if_pos rfl, ← hconserves, hitems, List.tail_cons,
              List.append_assoc]
            rfl
          · dsimp only
            rw [hitems]
            exact List.cons_ne_nil _ _
      · exact h
  | pop =>
      by_cases hreading : s.reading = true
      · exact h.pop hreading
      · rwa [Exchange.step, if_neg hreading]

theorem sound_always (connected : Bool) {steps : List Step}
    (hwoken : Along step (fun _ i => i.Woken) (new connected) steps) :
    Always step Sound (new connected) steps :=
  hwoken.always (fun _ _ h hi => h.step hi) (sound_new connected)

/-- One call, with nothing in between, is what `sendMessage` does to the queue, and it is
reported if and only if the answer is `OK`. -/
theorem after_sendMessage {t : SHMTransport} {call : SendCall} {served : Bool} (notified : Bool)
    (hidle : s.sending = none) (hrunning : s.ended = false)
    (hconnected : s.connected = t.connected) (hqueue : s.queue = t.sendQueue)
    (hroom : served = true → s.footprints.sum + call.footprint ≤ segmentSize) :
    let s' := after step s [.push call served, .answer notified]
    match t.sendMessage call served notified with
    | some (status, t') => s'.queue = t'.sendQueue ∧ s'.ended = false ∧
        s'.reported = s.reported ++ if status = .ok then [call] else []
    | none => s'.queue = t.sendQueue ∧ s'.ended = true ∧ s'.reported = s.reported := by
  simp only [after, List.foldl_cons, List.foldl_nil, SHMTransport.sendMessage]
  cases hon : t.connected with
  | false =>
      have hstep : s.step (.push call served) = s := by
        rw [step, hconnected, hon, Bool.and_false, Bool.false_and, if_neg Bool.false_ne_true]
      rw [hstep, step, hidle]
      exact ⟨hqueue, hrunning, (List.append_nil _).symm⟩
  | true =>
      have hcall : (s.sending.isNone && s.connected && !s.ended) = true := by
        rw [hidle, hconnected, hon, hrunning]
        rfl
      rw [step, step, if_pos hcall]
      cases served with
      | false =>
          rw [if_neg Bool.false_ne_true, Bool.false_and, if_neg Bool.false_ne_true]
          simp only [hidle, and_true]
          exact hqueue
      | true =>
          rw [decide_eq_true (hroom rfl), Bool.and_self, if_pos rfl]
          simp only [push, hqueue]
          cases notified with
          | true => exact ⟨rfl, hrunning, rfl⟩
          | false => exact ⟨rfl, hrunning, (List.append_nil _).symm⟩

/-- In every state of every interleaving of the two ends, nothing is lost. -/
theorem conserves_always (connected : Bool) {steps : List Step}
    (hwoken : Along step (fun _ i => i.Woken) (new connected) steps) :
    Always step Conserves (new connected) steps :=
  (sound_always connected hwoken).mono fun _ h => h.conserves

/-- A second message is pushed while the receiver is at the first. -/
theorem overtaken_conserves :
    let call : SendCall := ⟨probe, fun _ _ => 0⟩
    Always step Conserves (new true)
      [.push call true, .answer true, .front, .push call true, .pop, .answer true, .front] :=
  conserves_always true (by decide)

end Exchange

end Fastpath
