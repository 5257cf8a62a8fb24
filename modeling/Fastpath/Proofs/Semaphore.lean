import Fastpath.Lib.Steps
import Fastpath.Lib.Tally
import Fastpath.Model.Semaphore

/-!
# No permit is lost

Every permit that was given and that nobody has got hold of is in `m_count`, in
the kernel's semaphore, or about to be posted to it, and as many threads sleep
as the count is below zero and permits are on their way. So a thread that sleeps
while nothing is on its way sleeps because there is nothing to have.

A `read` from an `eventfd` takes all that is there for one sleeper. That does no
harm while no more than one permit is there, which is so when one thread does
all the waiting, and as soon as there are two the second one is lost. One that
is interrupted lets its thread go on with a permit that nobody has given.

All this holds as long as `m_count` has room for what is given.
-/

namespace Fastpath

open Fastpath.Lib

namespace SemOp

/-- Counted in `m_count` as a sleeper. -/
def asleep : SemOp → Nat
  | .sleeping _ => 1
  | _ => 0

/-- What it is still to post. -/
def posts : SemOp → Nat
  | .posting left => left
  | _ => 0

/-- The permit that a `waitMany` has, while it looks for more. -/
def inHand : SemOp → Nat
  | .loading _ true | .trying _ true _ => 1
  | _ => 0

/-- Only a `waitMany` for more than one looks again. -/
def Again (call : Acquire) (again : Bool) : Prop :=
  again = true → ∃ max, call = .waitMany max ∧ 1 < max

/-- What a thread that stands there has found out. -/
def Fits : SemOp → Prop
  | .loading call again => Again call again
  | .trying call again oldCount => Again call again ∧ 0 < oldCount
  | .spinning call _ | .sleeping call => call.blocks = true
  | .grabbing call _ oldCount => call.blocks = true ∧ 0 < oldCount
  | .posting left => 0 < left
  | .idle | .adding _ => True

theorem asleep_le (op : SemOp) : op.asleep ≤ 1 := by
  cases op <;> first | exact Nat.le_refl 1 | exact Nat.zero_le 1

end SemOp

namespace Acquire

/-- How many permits a call may come back with. -/
def Bounded (call : Acquire) (result : Nat) : Prop :=
  match call with
  | .tryWait => result ≤ 1
  | .wait => result = 1
  | .tryWaitMany max => result ≤ max
  | .waitMany max => result ≤ max ∧ (0 < max → 0 < result)

/-- How many it asks for at a time. -/
def asks (call : Acquire) (again : Bool) : Nat :=
  match call with
  | .tryWait | .wait => 1
  | .tryWaitMany max => max
  | .waitMany max => if again then max - 1 else max

theorem newCount_eq (call : Acquire) (again : Bool) {oldCount : Int} (h : 0 < oldCount) :
    call.newCount again oldCount = max (oldCount - call.asks again) 0 := by
  cases call with
  | tryWait | wait =>
      show oldCount - 1 = max (oldCount - (1 : Nat)) 0
      omega
  | tryWaitMany bound =>
      show (if oldCount > bound then oldCount - bound else 0) = max (oldCount - bound) 0
      split <;> omega
  | waitMany bound =>
      show (let max := if again then bound - 1 else bound
        if oldCount > max then oldCount - max else 0) =
          max (oldCount - (if again then bound - 1 else bound : Nat)) 0
      dsimp only
      split <;> omega

theorem bounded_of_blocks (call : Acquire) (hblocks : call.blocks = true) {result : Nat}
    (hresult : 0 < call.asks false → 0 < result ∧ result ≤ call.asks false) :
    call.Bounded result := by
  cases call with
  | tryWait => cases hblocks
  | wait =>
      obtain ⟨hpos, hle⟩ := hresult Nat.one_pos
      exact Nat.le_antisymm hle hpos
  | tryWaitMany max => cases hblocks
  | waitMany max =>
      obtain ⟨hpos, hle⟩ := hresult (of_decide_eq_true hblocks)
      exact ⟨hle, fun _ => hpos⟩

end Acquire

namespace Semaphore

open SemOp

variable {n initial : Nat} {s : Semaphore n} {t u : Fin n}

/-- The books of the semaphore, for so many sleepers, posts to come and permits in hand. -/
structure Books (initial : Nat) (s : Semaphore n) (asleep posts inHand : Nat) : Prop where
  balance : s.count + asleep = initial + s.signalled - s.acquired
  awake : asleep = (-s.count).toNat + s.permits + posts
  handed : s.acquired = (s.returned.map Prod.snd).sum + inHand

structure Sound (initial : Nat) (s : Semaphore n) : Prop where
  books : Books initial s (tally asleep s.threads) (tally posts s.threads) (tally inHand s.threads)
  fits : ∀ t, (s.threads t).Fits
  bounded : ∀ x ∈ s.returned, x.1.Bounded x.2
  small : initial + s.signalled < 2 ^ 63

/-- The books when the thread is between two accesses and counts for so much itself. -/
structure Between (initial : Nat) (s : Semaphore n) (t : Fin n) (sleeps posting holds : Nat) :
    Prop where
  books : ∀ A P H, A + (s.threads t).asleep = tally asleep s.threads →
    P + (s.threads t).posts = tally posts s.threads →
      H + (s.threads t).inHand = tally inHand s.threads →
        Books initial s (A + sleeps) (P + posting) (H + holds)
  fits : ∀ u, u ≠ t → (s.threads u).Fits
  bounded : ∀ x ∈ s.returned, x.1.Bounded x.2
  small : initial + s.signalled < 2 ^ 63

@[simp] theorem threads_goTo (op : SemOp) :
    (s.goTo t op).threads = Function.update s.threads t op := rfl

/-- A thread that goes on takes what it counted for with it. -/
theorem tally_goTo (weight : SemOp → Nat) (op : SemOp) :
    tally weight (s.goTo t op).threads =
      tally weight s.threads - weight (s.threads t) + weight op := by
  have hmoved := tally_update weight s.threads t op
  have hle := weight_le_tally weight s.threads t
  rw [threads_goTo]
  omega

theorem sound_new (hinitial : initial < 2 ^ 63) : (new initial : Semaphore n).Sound initial where
  books := by
    have hzero : ∀ weight : SemOp → Nat, weight .idle = 0 →
        tally weight (new initial : Semaphore n).threads = 0 :=
      fun weight h => tally_eq_zero.mpr fun _ => h
    rw [hzero asleep rfl, hzero posts rfl, hzero inHand rfl]
    exact ⟨by simp [new], by simp [new], rfl⟩
  fits _ := trivial
  bounded x hx := by cases hx
  small := hinitial

theorem Sound.between (h : s.Sound initial) (t : Fin n) :
    s.Between initial t (s.threads t).asleep (s.threads t).posts (s.threads t).inHand :=
  ⟨fun A P H hA hP hH => by rw [hA, hP, hH]; exact h.books, fun u _ => h.fits u, h.bounded,
    h.small⟩

namespace Between

variable {sleeps posting holds result : Nat} {call : Acquire} {again : Bool}

theorem books_goTo (h : s.Between initial t sleeps posting holds) (op : SemOp)
    (hsleeps : op.asleep = sleeps) (hposting : op.posts = posting) (hholds : op.inHand = holds) :
    Books initial s (tally asleep (s.goTo t op).threads) (tally posts (s.goTo t op).threads)
      (tally inHand (s.goTo t op).threads) := by
  rw [tally_goTo, tally_goTo, tally_goTo, hsleeps, hposting, hholds]
  exact h.books _ _ _ (Nat.sub_add_cancel (weight_le_tally asleep s.threads t))
    (Nat.sub_add_cancel (weight_le_tally posts s.threads t))
    (Nat.sub_add_cancel (weight_le_tally inHand s.threads t))

theorem fits_goTo (h : s.Between initial t sleeps posting holds) {op : SemOp} (hop : op.Fits)
    (u : Fin n) : ((s.goTo t op).threads u).Fits := by
  rw [threads_goTo]
  by_cases hu : u = t
  · rw [hu, Function.update_self]
    exact hop
  · rw [Function.update_of_ne hu]
    exact h.fits u hu

/-- What the thread has changed it counts for itself. -/
theorem change (h : s.Between initial t sleeps posting holds) {count : Int}
    {permits signalled acquired sleeps' posting' holds' : Nat}
    (hsmall : initial + signalled < 2 ^ 63)
    (hbooks : ∀ A P H, Books initial s (A + sleeps) (P + posting) (H + holds) →
      Books initial { s with
        count := count, permits := permits, signalled := signalled, acquired := acquired }
        (A + sleeps') (P + posting') (H + holds')) :
    Between initial { s with
      count := count, permits := permits, signalled := signalled, acquired := acquired } t
      sleeps' posting' holds' :=
  ⟨fun A P H hA hP hH => hbooks A P H (h.books A P H hA hP hH), h.fits, h.bounded, hsmall⟩

/-- To the next access. -/
theorem goTo (h : s.Between initial t sleeps posting holds) {op : SemOp} (hop : op.Fits)
    (hsleeps : op.asleep = sleeps) (hposting : op.posts = posting) (hholds : op.inHand = holds) :
    (s.goTo t op).Sound initial where
  books :=
    have hbooks := h.books_goTo op hsleeps hposting hholds
    ⟨hbooks.balance, hbooks.awake, hbooks.handed⟩
  fits := h.fits_goTo hop
  bounded := h.bounded
  small := h.small

/-- Out of the call, with what it holds. -/
theorem ret (h : s.Between initial t 0 0 holds) {call : Acquire} (hcall : call.Bounded holds) :
    (s.ret t call holds).Sound initial where
  books := by
    have hbooks : Books initial s (tally asleep (s.goTo t .idle).threads)
        (tally posts (s.goTo t .idle).threads)
          (tally inHand (s.goTo t .idle).threads + holds) := by
      rw [tally_goTo, tally_goTo, tally_goTo]
      exact h.books _ _ _ (Nat.sub_add_cancel (weight_le_tally asleep s.threads t))
        (Nat.sub_add_cancel (weight_le_tally posts s.threads t))
        (Nat.sub_add_cancel (weight_le_tally inHand s.threads t))
    refine ⟨hbooks.balance, hbooks.awake, ?_⟩
    have hhanded := hbooks.handed
    show s.acquired = ((s.returned ++ [(call, holds)]).map Prod.snd).sum +
      tally inHand (s.goTo t .idle).threads
    rw [List.map_append, List.sum_append, List.map_singleton, List.sum_singleton, hhanded]
    omega
  fits := h.fits_goTo trivial
  bounded x hx := by
    rcases List.mem_append.mp hx with hx | hx
    · exact h.bounded x hx
    · rw [List.mem_singleton.mp hx]
      exact hcall
  small := h.small

theorem tried (h : s.Between initial t 0 0 (again.toNat + result)) (hagain : Again call again)
    (hle : result ≤ call.asks again) : (s.tried t call again result).Sound initial := by
  rw [Semaphore.tried]
  cases again with
  | true =>
      obtain ⟨max, rfl, hmax⟩ := hagain rfl
      have hle : result ≤ max - 1 := hle
      rw [if_pos rfl]
      exact ret h ⟨by rw [Bool.toNat_true]; omega, fun _ => by rw [Bool.toNat_true]; omega⟩
  | false =>
      rw [Bool.toNat_false, Nat.zero_add] at h
      rw [if_neg Bool.false_ne_true]
      by_cases hspins : result = 0 ∧ call.blocks = true
      · rw [if_pos hspins]
        exact h.goTo hspins.2 rfl rfl hspins.1.symm
      · rw [if_neg hspins]
        refine h.ret ?_
        cases call with
        | tryWait => exact hle
        | wait =>
            have hle : result ≤ 1 := hle
            have hne : ¬ result = 0 := fun heq => hspins ⟨heq, rfl⟩
            show result = 1
            omega
        | tryWaitMany max => exact hle
        | waitMany max =>
            refine ⟨hle, fun hmax => Nat.pos_of_ne_zero fun heq => hspins ⟨heq, ?_⟩⟩
            exact decide_eq_true hmax

theorem look (h : s.Between initial t 0 0 again.toNat) (hagain : Again call again)
    (oldCount : Int) : (s.look t call again oldCount).Sound initial := by
  rw [Semaphore.look]
  split
  · next hpos => exact h.goTo ⟨hagain, hpos⟩ rfl rfl (by cases again <;> rfl)
  · exact h.tried hagain (Nat.zero_le _)

theorem woken (h : s.Between initial t 0 0 1) (hblocks : call.blocks = true) :
    (s.woken t call).Sound initial := by
  cases call with
  | tryWait => cases hblocks
  | wait => exact h.ret rfl
  | tryWaitMany max => cases hblocks
  | waitMany max =>
      have hmax : 0 < max := of_decide_eq_true hblocks
      rw [Semaphore.woken]
      split
      · next hmore => exact h.goTo (fun _ => ⟨max, rfl, hmore⟩) rfl rfl rfl
      · exact h.ret ⟨hmax, fun _ => Nat.one_pos⟩

theorem spun (h : s.Between initial t 0 0 0) (hcount : ssize (s.count - 1) = s.count - 1)
    (hblocks : call.blocks = true) (spin : Nat) : (s.spun t call spin).Sound initial := by
  cases spin with
  | zero =>
      rw [Semaphore.spun, hcount]
      split
      · next hnone =>
          have hsleeps : Between initial { s with count := s.count - 1 } t 1 0 0 :=
            h.change h.small fun A P H hbooks => by
              obtain ⟨hbalance, hawake, hhanded⟩ := hbooks
              exact ⟨by dsimp only; omega, by dsimp only; omega, hhanded⟩
          exact hsleeps.goTo hblocks rfl rfl rfl
      · next hsome =>
          refine (h.change h.small fun A P H hbooks => ?_).woken hblocks
          obtain ⟨hbalance, hawake, hhanded⟩ := hbooks
          exact ⟨by dsimp only; omega, by dsimp only; omega, by dsimp only; omega⟩
  | succ spin =>
      rw [Semaphore.spun]
      split
      · next hpos => exact h.goTo ⟨hblocks, hpos⟩ rfl rfl rfl
      · exact h.goTo hblocks rfl rfl rfl

theorem post {left : Nat} (h : s.Between initial t 0 left 0) : (s.post t left).Sound initial := by
  rw [Semaphore.post]
  split
  · next hleft => exact h.goTo trivial rfl hleft.symm rfl
  · next hleft => exact h.goTo (Nat.pos_of_ne_zero hleft) rfl rfl rfl

end Between

/-- Never too many sleepers, and never too much to take. -/
theorem Sound.count_bounds (h : s.Sound initial) (hn : n < 2 ^ 31) :
    -2 ^ 31 < s.count ∧ s.count ≤ initial + s.signalled := by
  have hasleep : tally asleep s.threads ≤ n := tally_le asleep_le
  obtain ⟨hbalance, hawake, -⟩ := h.books
  omega

/-- Never too many sleepers for an `int`. -/
theorem Sound.toRelease_eq (h : s.Sound initial) (hn : n < 2 ^ 31) (count : Nat) :
    toRelease s.count count = min (-s.count).toNat count := by
  have hcount := h.count_bounds hn
  rw [toRelease]
  split_ifs with hlt hpos hpos
  · rw [Int.bmod_eq_of_le (by omega) (by omega)]
    omega
  · omega
  · rw [Int.bmod_eq_of_le (by omega) (by omega)]
    omega
  · omega

/-- A `read` that comes back has found one permit. -/
def Alone (kernel : Kernel) (s : Semaphore n) (i : Step n) : Prop :=
  ∀ t call, kernel = .eventfd → s.threads t = .sleeping call →
    (∀ spurious, i = .advance t spurious → s.permits ≤ 1) ∧ (i = .interrupted t → s.permits ≠ 0)

/-- `m_count` has room for what is given. -/
def Room (initial : Nat) (s : Semaphore n) (i : Step n) : Prop :=
  ∀ t spurious count, i = .advance t spurious → s.threads t = .adding count →
    initial + s.signalled + count < 2 ^ 63

theorem Sound.advance (h : s.Sound initial) (hn : n < 2 ^ 31) {kernel : Kernel} {spurious : Bool}
    (hroom : Room initial s (.advance t spurious))
    (halone : Alone kernel s (.advance t spurious)) :
    (s.advance kernel t spurious).Sound initial := by
  have hfits := h.fits t
  have hbetween := h.between t
  cases ht : s.threads t with
  | idle =>
      rw [Semaphore.advance, ht]
      exact h
  | loading call again =>
      rw [ht] at hfits hbetween
      rw [Semaphore.advance, ht]
      exact Between.look (by cases again <;> exact hbetween) hfits _
  | trying call again oldCount =>
      rw [ht] at hfits hbetween
      obtain ⟨hagain, hpos⟩ := hfits
      have hholds : s.Between initial t 0 0 again.toNat := by cases again <;> exact hbetween
      rw [Semaphore.advance, ht]
      dsimp only
      split
      · next hsame =>
          obtain ⟨rfl, -⟩ := hsame
          rw [call.newCount_eq again hpos]
          refine Between.tried (hholds.change h.small fun A P H hbooks => ?_) hagain (by omega)
          obtain ⟨hbalance, hawake, hhanded⟩ := hbooks
          exact ⟨by dsimp only; omega, by dsimp only; omega, by dsimp only; omega⟩
      · exact hholds.look hagain _
  | spinning call spin =>
      rw [ht] at hfits hbetween
      rw [Semaphore.advance, ht]
      have hcount := h.count_bounds hn
      have hsmall := h.small
      exact hbetween.spun (ssize_eq (by omega) (by omega)) hfits spin
  | grabbing call spin oldCount =>
      rw [ht] at hfits hbetween
      change s.Between initial t 0 0 0 at hbetween
      obtain ⟨hblocks, hpos⟩ := hfits
      rw [Semaphore.advance, ht]
      dsimp only
      split
      · next hsame =>
          rw [call.newCount_eq false hpos]
          refine Between.ret (hbetween.change h.small fun A P H hbooks => ?_) ?_
          · obtain ⟨hbalance, hawake, hhanded⟩ := hbooks
            exact ⟨by dsimp only; omega, by dsimp only; omega, by dsimp only; omega⟩
          · exact call.bounded_of_blocks hblocks (by omega)
      · exact hbetween.goTo hblocks rfl rfl rfl
  | sleeping call =>
      rw [ht] at hfits hbetween
      change s.Between initial t 1 0 0 at hbetween
      rw [Semaphore.advance, ht]
      dsimp only
      split
      · exact h
      · next hsome =>
          have hwake : kernel.wake s.permits = s.permits - 1 := by
            cases kernel with
            | posix => rfl
            | eventfd =>
                have hle : s.permits ≤ 1 := (halone t call rfl ht).1 spurious rfl
                show 0 = s.permits - 1
                omega
          rw [hwake]
          refine (hbetween.change h.small fun A P H hbooks => ?_).woken hfits
          obtain ⟨hbalance, hawake, hhanded⟩ := hbooks
          exact ⟨by dsimp only; omega, by dsimp only; omega, by dsimp only; omega⟩
  | adding count =>
      rw [ht] at hbetween
      change s.Between initial t 0 0 0 at hbetween
      have hrelease := h.toRelease_eq hn count
      have hlater := hroom t spurious count rfl ht
      have hcount := h.count_bounds hn
      rw [Semaphore.advance, ht]
      dsimp only
      rw [hrelease, ssize_eq (by omega) (by omega)]
      refine (hbetween.change (by omega) fun A P H hbooks => ?_).post
      obtain ⟨hbalance, hawake, hhanded⟩ := hbooks
      exact ⟨by dsimp only; omega, by dsimp only; omega, hhanded⟩
  | posting left =>
      rw [ht] at hfits hbetween
      change s.Between initial t 0 left 0 at hbetween
      have hleft : 0 < left := hfits
      rw [Semaphore.advance, ht]
      refine (hbetween.change h.small fun A P H hbooks => ?_).post
      obtain ⟨hbalance, hawake, hhanded⟩ := hbooks
      exact ⟨hbalance, by dsimp only; omega, hhanded⟩

/-- No sleeper has come back from its `read` with nothing. -/
theorem interrupt_eq {kernel : Kernel} (halone : Alone kernel s (.interrupted t)) :
    s.interrupt kernel t = s := by
  cases kernel with
  | posix => rfl
  | eventfd =>
      rw [interrupt]
      split
      · next call ht => exact if_neg ((halone t call rfl ht).2 rfl)
      · rfl

theorem Sound.step (h : s.Sound initial) (hn : n < 2 ^ 31) {kernel : Kernel} {i : Step n}
    (hroom : Room initial s i) (halone : Alone kernel s i) : (s.step kernel i).Sound initial := by
  cases i with
  | advance t spurious => exact h.advance hn hroom halone
  | interrupted t =>
      rw [Semaphore.step, interrupt_eq halone]
      exact h
  | acquire t call =>
      have hbetween := h.between t
      rw [Semaphore.step]
      split
      · next ht =>
          rw [ht] at hbetween
          exact hbetween.goTo (fun hfalse => absurd hfalse Bool.false_ne_true) rfl rfl rfl
      · exact h
  | signal t count =>
      have hbetween := h.between t
      rw [Semaphore.step]
      split
      · next ht =>
          rw [ht] at hbetween
          exact hbetween.goTo trivial rfl rfl rfl
      · exact h

/-- Where the permits are, and what the calls have come back with. -/
structure Kept (initial : Nat) (s : Semaphore n) : Prop where
  /-- A permit that nobody has got is in the count, in the kernel's semaphore or on its way to
  it. -/
  permits : (initial + s.signalled : Int) =
    s.acquired + s.availableApprox + s.permits + tally posts s.threads
  /-- A thread that nothing is going to wake sleeps because everything has been got. -/
  asleep : ∀ t call, s.threads t = .sleeping call → s.permits = 0 →
    (∀ u left, s.threads u ≠ .posting left) → s.acquired = initial + s.signalled
  /-- What was got was returned, or a `waitMany` has it in its hand. -/
  handed : s.acquired = (s.returned.map Prod.snd).sum + tally inHand s.threads
  bounded : ∀ x ∈ s.returned, x.1.Bounded x.2

theorem Sound.kept (h : s.Sound initial) : s.Kept initial := by
  obtain ⟨hbalance, hawake, hhanded⟩ := h.books
  refine ⟨?_, fun t call ht hpermits hposts => ?_, hhanded, h.bounded⟩
  · rw [availableApprox]
    split <;> omega
  · have hsleeps := weight_le_tally SemOp.asleep s.threads t
    rw [ht] at hsleeps
    change 1 ≤ _ at hsleeps
    have hnone : tally posts s.threads = 0 := by
      refine tally_eq_zero.mpr fun u => ?_
      cases hu : s.threads u with
      | posting left => exact absurd hu (hposts u left)
      | _ => rfl
    omega

/-- A thread that has been woken goes on, or returns. -/
theorem woken_spec (t : Fin n) (call : Acquire) (s : Semaphore n) :
    ∃ op, op.posts = 0 ∧ (s.woken t call).threads = (s.goTo t op).threads ∧
      (s.woken t call).count = s.count ∧ (s.woken t call).permits = s.permits ∧
        (s.woken t call).signalled = s.signalled ∧ (s.woken t call).acquired = s.acquired := by
  cases call with
  | waitMany max =>
      rw [woken]
      split
      · exact ⟨_, rfl, rfl, rfl, rfl, rfl, rfl⟩
      · exact ⟨.idle, rfl, rfl, rfl, rfl, rfl, rfl⟩
  | _ => exact ⟨.idle, rfl, rfl, rfl, rfl, rfl, rfl⟩

/-- A `read` loses all permits that it takes but one, and makes one up where it finds none. -/
theorem Sound.not_kept_of_read (h : s.Sound initial) {call : Acquire}
    (ht : s.threads t = .sleeping call) (hpermits : s.permits ≠ 1) :
    ¬ (woken t call { s with permits := 0, acquired := s.acquired + 1 }).Kept initial := by
  intro hkept
  obtain ⟨hbalance, hawake, -⟩ := h.books
  have hbooked := hkept.permits
  obtain ⟨op, hposts, hthreads, hcount, hleft, hsignalled, hacquired⟩ :=
    woken_spec t call { s with permits := 0, acquired := s.acquired + 1 }
  rw [availableApprox, hthreads, hcount, hleft, hsignalled, hacquired, tally_goTo, hposts,
    ht] at hbooked
  dsimp only [SemOp.posts] at hbooked
  split at hbooked <;> omega

theorem Sound.loses (h : s.Sound initial) {kernel : Kernel} {i : Step n}
    (hnot : ¬ Alone kernel s i) : ¬ (s.step kernel i).Kept initial := by
  simp only [Alone, not_forall] at hnot
  obtain ⟨t, call, rfl, ht, hread⟩ := hnot
  by_cases hmany : ∃ spurious, i = .advance t spurious ∧ 1 < s.permits
  · obtain ⟨spurious, rfl, hmany⟩ := hmany
    have hstep : s.step .eventfd (.advance t spurious) =
        woken t call { s with permits := 0, acquired := s.acquired + 1 } := by
      rw [Semaphore.step, Semaphore.advance, ht]
      dsimp only
      rw [if_neg (by omega)]
      rfl
    rw [hstep]
    exact h.not_kept_of_read ht (by omega)
  · have hnothing : ¬ (i = .interrupted t → s.permits ≠ 0) := fun hsome =>
      hread ⟨fun spurious hi => Nat.not_lt.mp fun hlt => hmany ⟨spurious, hi, hlt⟩, hsome⟩
    obtain ⟨rfl, hnone⟩ := Classical.not_imp.mp hnothing
    have hnone : s.permits = 0 := not_not.mp hnone
    have hstep : s.step .eventfd (.interrupted t) =
        woken t call { s with permits := 0, acquired := s.acquired + 1 } := by
      rw [Semaphore.step, interrupt, ht]
      dsimp only
      rw [if_pos hnone, ← hnone]
    rw [hstep]
    exact h.not_kept_of_read ht (by omega)

/-- Whichever kernel it is. -/
theorem permits_kept_iff (hn : n < 2 ^ 31) (hinitial : initial < 2 ^ 63) (kernel : Kernel)
    {steps : List (Step n)}
    (hroom : Along (step kernel) (Room initial) (new initial : Semaphore n) steps) :
    Always (step kernel) (Kept initial) (new initial : Semaphore n) steps ↔
      Along (step kernel) (Alone kernel) (new initial : Semaphore n) steps :=
  hroom.always_iff (I := Sound initial) (fun _ h => h.kept)
    (fun _ _ h hroom halone => h.step hn hroom halone) (fun _ _ h _ hnot => h.loses hnot)
      (sound_new hinitial)

/-- Nothing but the thread has moved, and not into a `signal`. -/
def Moved (t : Fin n) (s s' : Semaphore n) : Prop :=
  ∃ op, s'.threads = Function.update s.threads t op ∧ ∀ count, op ≠ .adding count

theorem Moved.of_ne {s' : Semaphore n} (h : Moved t s s') (hu : u ≠ t) :
    s'.threads u = s.threads u := by
  obtain ⟨op, hop, -⟩ := h
  rw [hop, Function.update_of_ne hu]

theorem moved_tried (t : Fin n) (call : Acquire) (again : Bool) (result : Nat)
    (s : Semaphore n) : Moved t s (s.tried t call again result) := by
  rw [tried]
  split_ifs <;> exact ⟨_, rfl, fun _ h => by cases h⟩

theorem moved_look (t : Fin n) (call : Acquire) (again : Bool) (oldCount : Int)
    (s : Semaphore n) : Moved t s (s.look t call again oldCount) := by
  rw [look]
  split_ifs
  · exact ⟨_, rfl, fun _ h => by cases h⟩
  · exact moved_tried t call again 0 s

theorem moved_woken (t : Fin n) (call : Acquire) (s : Semaphore n) :
    Moved t s (s.woken t call) := by
  cases call with
  | waitMany max =>
      rw [woken]
      split <;> exact ⟨_, rfl, fun _ h => by cases h⟩
  | _ => exact ⟨.idle, rfl, fun _ h => by cases h⟩

theorem moved_spun (t : Fin n) (call : Acquire) (spin : Nat) (s : Semaphore n) :
    Moved t s (s.spun t call spin) := by
  cases spin with
  | zero =>
      rw [spun]
      split
      · exact ⟨_, rfl, fun _ h => by cases h⟩
      · exact moved_woken (s := { s with count := _, acquired := _ }) t call
  | succ spin =>
      rw [spun]
      split <;> exact ⟨_, rfl, fun _ h => by cases h⟩

theorem moved_advance (kernel : Kernel) (t : Fin n) (spurious : Bool) (s : Semaphore n) :
    Moved t s (s.advance kernel t spurious) := by
  cases ht : s.threads t with
  | idle =>
      rw [advance, ht]
      exact ⟨.idle, (ht ▸ Function.update_eq_self t s.threads).symm, fun _ h => by cases h⟩
  | loading call again =>
      rw [advance, ht]
      exact moved_look t call again s.count s
  | trying call again oldCount =>
      rw [advance, ht]
      dsimp only
      split
      · exact moved_tried (s := { s with count := _, acquired := _ }) t call again _
      · exact moved_look t call again s.count s
  | spinning call spin =>
      rw [advance, ht]
      exact moved_spun t call spin s
  | grabbing call spin oldCount =>
      rw [advance, ht]
      dsimp only
      split <;> exact ⟨_, rfl, fun _ h => by cases h⟩
  | sleeping call =>
      rw [advance, ht]
      dsimp only
      split
      · exact ⟨.sleeping call, (ht ▸ Function.update_eq_self t s.threads).symm,
          fun _ h => by cases h⟩
      · exact moved_woken
          (s := { s with permits := kernel.wake s.permits, acquired := s.acquired + 1 }) t call
  | adding count =>
      rw [advance, ht]
      dsimp only
      rw [post]
      split <;> exact ⟨_, rfl, fun _ h => by cases h⟩
  | posting left =>
      rw [advance, ht]
      dsimp only
      rw [post]
      split <;> exact ⟨_, rfl, fun _ h => by cases h⟩

theorem moved_interrupt (kernel : Kernel) (t : Fin n) (s : Semaphore n) :
    s.interrupt kernel t = s ∨ Moved t s (s.interrupt kernel t) := by
  cases kernel with
  | posix => exact .inl rfl
  | eventfd =>
      rw [interrupt]
      split
      · next call ht =>
          split
          · exact .inr (moved_woken (s := { s with acquired := _ }) t call)
          · exact .inl rfl
      · exact .inl rfl

/-- Nobody is about to give. -/
def Calm (s : Semaphore n) : Prop := ∀ t count, s.threads t ≠ .adding count

theorem Moved.calm {s' : Semaphore n} (h : Moved t s s') (hcalm : s.Calm) : s'.Calm := by
  obtain ⟨op, hop, hnot⟩ := h
  intro u count
  rw [hop]
  by_cases hu : u = t
  · rw [hu, Function.update_self]
    exact hnot count
  · rw [Function.update_of_ne hu]
    exact hcalm u count

theorem Calm.step (h : s.Calm) {kernel : Kernel} {i : Step n}
    (hi : ∀ t count, i ≠ .signal t count) :
    (s.step kernel i).Calm := by
  cases i with
  | advance t spurious => exact (moved_advance kernel t spurious s).calm h
  | interrupted t =>
      rcases moved_interrupt kernel t s with hsame | hmoved
      · rw [Semaphore.step, hsame]
        exact h
      · exact hmoved.calm h
  | acquire t call =>
      rw [Semaphore.step]
      split
      · exact Moved.calm ⟨_, rfl, fun _ h => by cases h⟩ h
      · exact h
  | signal t count => exact absurd rfl (hi t count)

/-- A run in which nobody calls `signal`. -/
theorem Calm.along_room (h : s.Calm) {kernel : Kernel} {steps : List (Step n)}
    (hsteps : ∀ i ∈ steps, ∀ t count, i ≠ .signal t count) :
    Along (Semaphore.step kernel) (Room initial) s steps := by
  induction steps generalizing s with
  | nil => trivial
  | cons i steps ih =>
      refine ⟨fun t spurious count _ hadding => absurd hadding (h t count), ?_⟩
      exact ih (h.step (hsteps i List.mem_cons_self))
        fun j hj => hsteps j (List.mem_cons_of_mem _ hj)

theorem goTo_goTo (op op' : SemOp) : (s.goTo t op).goTo t op' = s.goTo t op' := by
  rw [goTo, goTo, goTo, Semaphore.mk.injEq]
  exact ⟨rfl, rfl, Function.update_idem _ _ _, rfl, rfl, rfl⟩

/-- A thread spins in vain. -/
theorem after_spinning (kernel : Kernel) (hcount : s.count ≤ 0) (call : Acquire) (spin : Nat) :
    after (step kernel) (s.goTo t (.spinning call spin)) (List.replicate spin (.advance t false)) =
      s.goTo t (.spinning call 0) := by
  induction spin with
  | zero => rfl
  | succ spin ih =>
      have hround : (s.goTo t (.spinning call (spin + 1))).step kernel (.advance t false) =
          s.goTo t (.spinning call spin) := by
        rw [step, advance, threads_goTo, Function.update_self]
        dsimp only
        rw [spun, if_neg (show ¬ (s.goTo t (.spinning call (spin + 1))).count > 0 from
          Int.not_lt.mpr hcount), goTo_goTo]
      rw [List.replicate_succ, after, List.foldl_cons, hround]
      exact ih

/-- A `wait()` up to its sleep. -/
def fallAsleep (t : Fin n) : List (Step n) :=
  [.acquire t .wait, .advance t false] ++ List.replicate 10000 (.advance t false) ++
    [.advance t false]

theorem signal_not_mem_fallAsleep {i : Step n} (hi : i ∈ fallAsleep t) (u : Fin n) (count : Nat) :
    i ≠ .signal u count := by
  rintro rfl
  rcases List.mem_append.mp hi with hi | hi
  · rcases List.mem_append.mp hi with hi | hi
    · cases hi with
      | tail _ hi => cases hi with
        | tail _ hi => cases hi
    · cases List.eq_of_mem_replicate hi
  · cases List.mem_singleton.mp hi

theorem after_fallAsleep (kernel : Kernel) (hcount : s.count ≤ 0) (ht : s.threads t = .idle) :
    after (step kernel) s (fallAsleep t) =
      goTo t (.sleeping .wait) { s with count := ssize (s.count - 1) } := by
  have hcall : after (step kernel) s [.acquire t .wait, .advance t false] =
      s.goTo t (.spinning .wait 10000) := by
    rw [after, List.foldl_cons, List.foldl_cons, List.foldl_nil, step, ht, step, advance,
      threads_goTo, Function.update_self]
    dsimp only
    rw [look, if_neg (show ¬ (s.goTo t (.loading .wait false)).count > 0 from
      Int.not_lt.mpr hcount), tried,
      if_neg Bool.false_ne_true, if_pos ⟨rfl, rfl⟩, goTo_goTo]
  rw [fallAsleep, after_append, after_append, hcall, after_spinning kernel hcount, after,
    List.foldl_cons, List.foldl_nil, step, advance, threads_goTo, Function.update_self]
  dsimp only
  rw [spun, if_pos (show (s.goTo t (.spinning .wait 0)).count ≤ 0 from hcount)]
  exact goTo_goTo (s := { s with count := ssize (s.count - 1) }) _ _

/-- Two threads sleep, and two permits are posted before the first of them wakes. -/
def overslept : List (Step 3) :=
  fallAsleep 0 ++ fallAsleep 1 ++
    [.signal 2 2, .advance 2 false, .advance 2 false, .advance 2 false, .advance 0 false]

/-- Where both sleep. -/
theorem after_bothAsleep (kernel : Kernel) :
    after (step kernel) (new 0 : Semaphore 3) (fallAsleep 0 ++ fallAsleep 1) =
      goTo 1 (.sleeping .wait) (goTo 0 (.sleeping .wait) { new 0 with count := -2 }) := by
  have hfirst : after (step kernel) (new 0 : Semaphore 3) (fallAsleep 0) =
      goTo 0 (.sleeping .wait) { new 0 with count := -1 } :=
    after_fallAsleep kernel (Int.le_refl 0) rfl
  rw [after_append, hfirst]
  exact after_fallAsleep kernel (show (-1 : Int) ≤ 0 by decide) rfl

theorem room_overslept (kernel : Kernel) :
    Along (step kernel) (Room 0) (new 0 : Semaphore 3) overslept := by
  have hcalm : Calm (new 0 : Semaphore 3) := fun _ _ h => by cases h
  rw [overslept, along_append, after_bothAsleep]
  refine ⟨hcalm.along_room fun i hi => ?_, ?_⟩
  · rcases List.mem_append.mp hi with hi | hi <;> exact signal_not_mem_fallAsleep hi
  · refine ⟨?_, ?_, ?_, ?_, ?_, trivial⟩
    all_goals
      intro t spurious count hi hadding
      cases hi
      try cases hadding
    exact (by decide : 0 + 0 + 2 < 2 ^ 63)

theorem not_kept_overslept : 3 < 2 ^ 31 ∧ 0 < 2 ^ 63 ∧
    Along (step .eventfd) (Room 0) (new 0 : Semaphore 3) overslept ∧
      ¬ Always (step .eventfd) (Kept 0) (new 0 : Semaphore 3) overslept := by
  refine ⟨by decide, by decide, room_overslept .eventfd, fun hkept => ?_⟩
  have halong := (permits_kept_iff (by decide) (by decide) .eventfd
    (room_overslept .eventfd)).mp hkept
  rw [overslept, along_append, after_bothAsleep] at halong
  have hlast := (halong.2.2.2.2.2.1 0 .wait rfl rfl).1 false rfl
  exact absurd hlast (by decide)

/-- A `sem_wait` never takes more than one. -/
theorem posix_kept (hn : n < 2 ^ 31) (hinitial : initial < 2 ^ 63) {steps : List (Step n)}
    (hroom : Along (step .posix) (Room initial) (new initial : Semaphore n) steps) :
    Always (step .posix) (Kept initial) (new initial : Semaphore n) steps := by
  have hsound : Always (step .posix) (Sound initial) (new initial : Semaphore n) steps :=
    hroom.always (fun _ _ h hroom => h.step hn hroom fun _ _ hkernel => by cases hkernel)
      (sound_new hinitial)
  exact hsound.mono fun _ h => h.kept

theorem posix_kept_overslept : 3 < 2 ^ 31 ∧ 0 < 2 ^ 63 ∧
    Along (step .posix) (Room 0) (new 0 : Semaphore 3) overslept ∧
      Always (step .posix) (Kept 0) (new 0 : Semaphore 3) overslept :=
  ⟨by decide, by decide, room_overslept .posix,
    posix_kept (by decide) (by decide) (room_overslept .posix)⟩

/-- All the waiting is done by one thread, and no handler is run meanwhile. -/
def OneWaits (w : Fin n) (_ : Semaphore n) (i : Step n) : Prop :=
  (∀ t call, i = .acquire t call → t = w) ∧ ∀ t, i ≠ .interrupted t

/-- In no call, or in `signal`. -/
def Signals (op : SemOp) : Prop := op = .idle ∨ (∃ count, op = .adding count) ∨
  ∃ left, op = .posting left

theorem signals_post {left : Nat} : Signals ((s.post t left).threads t) := by
  rw [post]
  split
  · rw [threads_goTo, Function.update_self]
    exact .inl rfl
  · rw [threads_goTo, Function.update_self]
    exact .inr (.inr ⟨left, rfl⟩)

/-- A thread that only signals does nothing else in the middle of it. -/
theorem signals_advance {kernel : Kernel} {spurious : Bool} (h : Signals (s.threads t)) :
    Signals ((s.advance kernel t spurious).threads t) := by
  rcases h with ht | ⟨count, ht⟩ | ⟨left, ht⟩
  · rw [advance, ht]
    exact .inl ht
  · rw [advance, ht]
    exact signals_post
  · rw [advance, ht]
    exact signals_post

theorem signals_step {kernel : Kernel} {w : Fin n} {i : Step n} (hone : OneWaits w s i)
    (h : ∀ u, u ≠ w → Signals (s.threads u)) (hu : u ≠ w) :
    Signals ((s.step kernel i).threads u) := by
  cases i with
  | advance t spurious =>
      by_cases hut : u = t
      · rw [hut] at hu ⊢
        exact signals_advance (h t hu)
      · rw [step, (moved_advance kernel t spurious s).of_ne hut]
        exact h u hu
  | interrupted t => exact absurd rfl (hone.2 t)
  | acquire t call =>
      rw [step]
      split
      · rw [threads_goTo, Function.update_of_ne (fun heq => hu (heq.trans (hone.1 t call rfl)))]
        exact h u hu
      · exact h u hu
  | signal t count =>
      rw [step]
      split
      · by_cases hut : u = t
        · rw [hut, threads_goTo, Function.update_self]
          exact .inr (.inl ⟨count, rfl⟩)
        · rw [threads_goTo, Function.update_of_ne hut]
          exact h u hu
      · exact h u hu

/-- With one thread asleep at most, there is one permit at most. -/
theorem Sound.alone_of_signals (h : s.Sound initial) {w : Fin n}
    (hsignals : ∀ u, u ≠ w → Signals (s.threads u)) (kernel : Kernel) {i : Step n}
    (hone : OneWaits w s i) : Alone kernel s i := by
  have hzero : ∀ u, u ≠ w → (s.threads u).asleep = 0 := by
    intro u hu
    rcases hsignals u hu with ht | ⟨count, ht⟩ | ⟨left, ht⟩ <;> rw [ht] <;> rfl
  have hsleeps : tally SemOp.asleep s.threads ≤ 1 := by
    rw [tally_eq_single w hzero]
    exact asleep_le _
  have hawake := h.books.awake
  exact fun t call _ _ => ⟨fun _ _ => by omega, fun hi => absurd hi (hone.2 t)⟩

/-- An `eventfd` does for one thread that waits. -/
theorem eventfd_kept (hn : n < 2 ^ 31) (hinitial : initial < 2 ^ 63) {w : Fin n}
    {steps : List (Step n)}
    (hroom : Along (step .eventfd) (Room initial) (new initial : Semaphore n) steps)
    (hone : Along (step .eventfd) (OneWaits w) (new initial : Semaphore n) steps) :
    Always (step .eventfd) (Kept initial) (new initial : Semaphore n) steps := by
  have hsound := (hroom.and hone).always
    (I := fun s : Semaphore n => s.Sound initial ∧ ∀ u, u ≠ w → Signals (s.threads u))
    (fun _ _ h hi => ⟨h.1.step hn hi.1 (h.1.alone_of_signals h.2 .eventfd hi.2),
      fun _ hu => signals_step hi.2 h.2 hu⟩) ⟨sound_new hinitial, fun _ _ => .inl rfl⟩
  exact hsound.mono fun _ h => h.1.kept

/-- One thread waits for what another one signals. -/
def handedOver (t u : Fin n) : List (Step n) :=
  [.acquire t (.waitMany 2), .signal u 3, .advance u false, .advance t false, .advance t true,
    .advance t false]

theorem eventfd_kept_handedOver : 2 < 2 ^ 31 ∧ 0 < 2 ^ 63 ∧
    Along (step .eventfd) (Room 0) (new 0 : Semaphore 2) (handedOver 0 1) ∧
      Along (step .eventfd) (OneWaits 0) (new 0 : Semaphore 2) (handedOver 0 1) ∧
        Always (step .eventfd) (Kept 0) (new 0 : Semaphore 2) (handedOver 0 1) := by
  have hroom : Along (step .eventfd) (Room 0) (new 0 : Semaphore 2) (handedOver 0 1) := by
    refine ⟨?_, ?_, ?_, ?_, ?_, ?_, trivial⟩
    all_goals
      intro t spurious count hi hadding
      cases hi
      try cases hadding
    exact (by decide : 0 + 0 + 3 < 2 ^ 63)
  have hone : Along (step .eventfd) (OneWaits 0) (new 0 : Semaphore 2) (handedOver 0 1) := by
    refine ⟨?_, ?_, ?_, ?_, ?_, ?_, trivial⟩
    all_goals
      refine ⟨fun t call hi => ?_, fun t hi => ?_⟩
      all_goals cases hi
    rfl
  exact ⟨by decide, by decide, hroom, hone, eventfd_kept (by decide) (by decide) hroom hone⟩

end Semaphore

end Fastpath
