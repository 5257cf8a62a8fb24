import Mathlib.Algebra.Order.BigOperators.Group.List
import Mathlib.Algebra.Order.Ring.Nat
import Fastpath.Model.Arena

/-!
# Blocks of an arena

The live blocks are a list beside the arena, in no particular order. Each of
them is below the head of a slab, no two overlap, and the count of a slab is the
sum of those it owns; a slab that owns none has its head at the start. Handing
out a block and taking one back keep all of that, so when the last block is
back every slab is as good as new.

A block belongs to the slab whose memory its pointer is in. Slabs do not touch,
so there is one such slab, and it is the one that the search by pointer finds,
whichever slabs are looked at first.
-/

namespace Fastpath

open Fastpath.Lib

/-- No byte of one is a byte of the other. -/
def Block.Disjoint (b c : Block) : Prop := b.ptr + b.size ≤ c.ptr ∨ c.ptr + c.size ≤ b.ptr

namespace Slab

theorem le_roundUp (n : Nat) : n ≤ roundUp n := by
  rw [roundUp]
  omega

theorem RoundedApart.symm {s t : Slab} (h : s.RoundedApart t) : t.RoundedApart s := Or.symm h

theorem free_new (content size : Nat) : (Slab.new content size).free = size := by
  show size - (content - content) = size
  omega

/-- The pointer of the block is into the slab's memory. -/
def owns (s : Slab) (b : Block) : Bool :=
  decide (s.content ≤ b.ptr ∧ b.ptr ≤ s.content + s.size)

theorem owns_iff {s : Slab} {b : Block} :
    s.owns b = true ↔ s.content ≤ b.ptr ∧ b.ptr ≤ s.content + s.size := decide_eq_true_iff

theorem RoundedApart.not_owns {s t : Slab} (h : s.RoundedApart t) {b : Block}
    (hs : s.owns b = true) :
    t.owns b = false := by
  have hsize := le_roundUp s.size
  have hsize' := le_roundUp t.size
  obtain ⟨hlow, hhigh⟩ := owns_iff.mp hs
  refine decide_eq_false fun ⟨hlow', hhigh'⟩ => ?_
  rcases h with hlt | hlt <;> omega

theorem region_deallocate (s : Slab) (ptr size : Nat) :
    (s.deallocate ptr size).content = s.content ∧ (s.deallocate ptr size).size = s.size := by
  rw [deallocate]
  dsimp only
  split
  · exact ⟨rfl, rfl⟩
  · split
    · exact ⟨rfl, rfl⟩
    · exact ⟨rfl, rfl⟩

/-- Where a slab stands, for the blocks that are live. -/
structure Keeps (s : Slab) (live : List Block) : Prop where
  low : s.content ≤ s.head
  high : s.head ≤ s.content + s.size
  count : s.allocated = ((live.filter s.owns).map Block.size).sum
  reset : (∀ b ∈ live, s.owns b = false) → s.head = s.content

/-- The block lies in the slab, below its head. -/
def Below (s : Slab) (b : Block) : Prop := s.content ≤ b.ptr ∧ b.ptr + b.size ≤ s.head

theorem Keeps.owns_of_below {s : Slab} {live : List Block} (h : s.Keeps live) {b : Block}
    (hb : s.Below b) : s.owns b = true := by
  have := h.high
  exact owns_iff.mpr ⟨hb.1, by have := hb.2; omega⟩

theorem Keeps.perm {s : Slab} {live live' : List Block} (h : s.Keeps live)
    (hperm : live.Perm live') : s.Keeps live' where
  low := h.low
  high := h.high
  count := by
    rw [h.count]
    exact ((hperm.filter _).map _).sum_eq
  reset hnone := h.reset fun b hb => hnone b (hperm.mem_iff.mp hb)

/-- A block of another slab does not matter. -/
theorem Keeps.cons_iff {s : Slab} {live : List Block} {b : Block} (hb : s.owns b = false) :
    s.Keeps (b :: live) ↔ s.Keeps live := by
  have hfilter : (b :: live).filter s.owns = live.filter s.owns := by
    rw [List.filter_cons, if_neg (by rw [hb]; exact Bool.false_ne_true)]
  constructor
  · intro h
    refine ⟨h.low, h.high, by rw [h.count, hfilter], fun hnone => h.reset ?_⟩
    exact List.forall_mem_cons.mpr ⟨hb, hnone⟩
  · intro h
    refine ⟨h.low, h.high, by rw [h.count, hfilter], fun hnone => h.reset ?_⟩
    exact (List.forall_mem_cons.mp hnone).2

theorem Keeps.allocate {s : Slab} {live : List Block} (h : s.Keeps live) {size : Nat}
    (hpos : 0 < size) (hfree : size ≤ s.free) :
    (s.allocate size).Keeps (⟨s.head, size⟩ :: live) := by
  have hlow := h.low
  have hhigh := h.high
  rw [Slab.free] at hfree
  have howns : s.owns ⟨s.head, size⟩ = true := owns_iff.mpr ⟨hlow, hhigh⟩
  refine ⟨?_, ?_, ?_, fun hnone => ?_⟩
  · show s.content ≤ s.head + size
    omega
  · show s.head + size ≤ s.content + s.size
    omega
  · show s.allocated + size = ((List.filter s.owns (⟨s.head, size⟩ :: live)).map Block.size).sum
    rw [List.filter_cons, if_pos howns, List.map_cons, List.sum_cons, h.count, Nat.add_comm]
  · have hfalse : s.owns ⟨s.head, size⟩ = false := hnone _ List.mem_cons_self
    rw [howns] at hfalse
    cases hfalse

theorem size_le_sum {s : Slab} {live : List Block} {c : Block} (hc : c ∈ live)
    (howns : s.owns c = true) : c.size ≤ ((live.filter s.owns).map Block.size).sum :=
  List.single_le_sum (fun _ _ => Nat.zero_le _) _
    (List.mem_map_of_mem (List.mem_filter.mpr ⟨hc, howns⟩))

/-- A block is taken back: the head comes down at most to where another block ends. -/
theorem Keeps.deallocate {s : Slab} {live : List Block} {b : Block} (h : s.Keeps (b :: live))
    (hb : s.Below b)
    (hlive : ∀ c ∈ live, s.owns c = true → 0 < c.size ∧ s.Below c ∧ b.Disjoint c) :
    b.size ≤ s.allocated ∧ (s.deallocate b.ptr b.size).Keeps live ∧
      ∀ c ∈ live, s.owns c = true → (s.deallocate b.ptr b.size).Below c := by
  have hlow := h.low
  have hhigh := h.high
  have hcount := h.count
  rw [List.filter_cons, if_pos (h.owns_of_below hb), List.map_cons, List.sum_cons] at hcount
  refine ⟨by omega, ?_⟩
  obtain ⟨hptr, hend⟩ := hb
  rw [Slab.deallocate]
  dsimp only
  split
  · next hzero =>
      have hnone : ∀ c ∈ live, s.owns c = false := by
        intro c hc
        by_contra howns
        rw [Bool.not_eq_false] at howns
        have hle := size_le_sum hc howns
        have hpos := (hlive c hc howns).1
        omega
      refine ⟨⟨Nat.le_refl _, Nat.le_add_right _ _, ?_, fun _ => rfl⟩, fun c hc howns => ?_⟩
      · show s.allocated - b.size = ((live.filter s.owns).map Block.size).sum
        omega
      · rw [hnone c hc] at howns
        cases howns
  · next hsome =>
      have hreset : (∀ c ∈ live, s.owns c = false) → False := by
        intro hnone
        have hnil : live.filter s.owns = [] := by
          rw [List.filter_eq_nil_iff]
          intro c hc
          rw [hnone c hc]
          exact Bool.false_ne_true
        rw [hnil, List.map_nil, List.sum_nil] at hcount
        omega
      split
      · next hlast =>
          refine ⟨⟨hptr, ?_, ?_, fun hnone => (hreset hnone).elim⟩, fun c hc howns => ?_⟩
          · show b.ptr ≤ s.content + s.size
            omega
          · show s.allocated - b.size = ((live.filter s.owns).map Block.size).sum
            omega
          · obtain ⟨hpos, ⟨hcptr, hcend⟩, hdisjoint⟩ := hlive c hc howns
            refine ⟨hcptr, ?_⟩
            show c.ptr + c.size ≤ b.ptr
            rcases hdisjoint with hafter | hbefore <;> omega
      · refine ⟨⟨hlow, hhigh, ?_, fun hnone => (hreset hnone).elim⟩, fun c hc howns =>
          (hlive c hc howns).2.1⟩
        show s.allocated - b.size = ((live.filter s.owns).map Block.size).sum
        omega

end Slab

/-! ## The whole arena -/

namespace Arena

/-- The live blocks of an arena, and how its slabs stand for them. -/
structure Holds (a : Arena) (live : List Block) : Prop where
  apart : a.slabs.Pairwise Slab.RoundedApart
  keeps : ∀ s ∈ a.slabs, s.Keeps live
  placed : ∀ b ∈ live, 0 < b.size ∧ ∃ s ∈ a.slabs, s.Below b
  disjoint : live.Pairwise Block.Disjoint

variable {a : Arena} {live : List Block}

theorem Holds.perm {live' : List Block} (h : a.Holds live) (hperm : live.Perm live') :
    a.Holds live' where
  apart := h.apart
  keeps s hs := (h.keeps s hs).perm hperm
  placed b hb := h.placed b (hperm.mem_iff.mpr hb)
  disjoint := (hperm.pairwise_iff fun h => Or.symm h).mp h.disjoint

/-- Of two slabs with one between the ones before and the ones behind it, the others are apart
from it. -/
theorem apart_of_split {before behind : List Slab} {s t : Slab}
    (h : (before ++ s :: behind).Pairwise Slab.RoundedApart) (ht : t ∈ before ∨ t ∈ behind) :
    s.RoundedApart t := by
  obtain ⟨-, hfrom, hcross⟩ := List.pairwise_append.mp h
  rcases ht with ht | ht
  · exact (hcross t ht s List.mem_cons_self).symm
  · exact (List.pairwise_cons.mp hfrom).1 t ht

theorem mem_split {before behind : List Slab} {s t : Slab} :
    t ∈ before ++ s :: behind ↔ t = s ∨ t ∈ before ∨ t ∈ behind := by
  rw [List.mem_append, List.mem_cons]
  tauto

/-- What is handed out at the head of a slab with space is a live block from then on. -/
theorem Holds.allocate_at {before behind : List Slab} {s : Slab} {initialSize size : Nat}
    (h : Holds ⟨initialSize, before ++ s :: behind⟩ live) (hpos : 0 < size)
    (hfree : size ≤ s.free) :
    Holds ⟨initialSize, before ++ s.allocate size :: behind⟩ (⟨s.head, size⟩ :: live) := by
  have hs : s ∈ before ++ s :: behind := mem_split.mpr (.inl rfl)
  have hkeeps := (h.keeps s hs).allocate hpos hfree
  have hbelow : (s.allocate size).Below ⟨s.head, size⟩ := ⟨(h.keeps s hs).low, Nat.le_refl _⟩
  have howns : s.owns ⟨s.head, size⟩ = true := hkeeps.owns_of_below hbelow
  refine ⟨pairwise_putBack h.apart (fun _ h => h) (fun _ h => h), ?_, ?_, ?_⟩
  · intro t ht
    rcases mem_split.mp ht with rfl | ht
    · exact hkeeps
    · exact (Slab.Keeps.cons_iff ((apart_of_split h.apart ht).not_owns howns)).mpr
        (h.keeps t (mem_split.mpr (.inr ht)))
  · rw [List.forall_mem_cons]
    refine ⟨⟨hpos, s.allocate size, mem_split.mpr (.inl rfl), hbelow⟩, fun b hb => ?_⟩
    obtain ⟨hsize, t, ht, hplace⟩ := h.placed b hb
    refine ⟨hsize, ?_⟩
    rcases mem_split.mp ht with rfl | ht
    · exact ⟨t.allocate size, mem_split.mpr (.inl rfl), hplace.1,
        Nat.le_trans hplace.2 (Nat.le_add_right _ _)⟩
    · exact ⟨t, mem_split.mpr (.inr ht), hplace⟩
  · refine List.pairwise_cons.mpr ⟨fun b hb => ?_, h.disjoint⟩
    obtain ⟨hsize, t, ht, hplace⟩ := h.placed b hb
    rcases mem_split.mp ht with rfl | ht
    · exact .inr hplace.2
    · -- slabs do not overlap, so their blocks do not
      have hapart := apart_of_split h.apart ht
      have hroom := hkeeps.high
      have hroom' := (h.keeps t (mem_split.mpr (.inr ht))).high
      have hlow := (h.keeps s hs).low
      have halign := Slab.le_roundUp s.size
      have halign' := Slab.le_roundUp t.size
      obtain ⟨hptr, hend⟩ := hplace
      change s.head + size ≤ s.content + s.size at hroom
      rcases hapart with hlt | hlt
      · refine .inl ?_
        show s.head + size ≤ b.ptr
        omega
      · refine .inr ?_
        show b.ptr + b.size ≤ s.head
        omega

/-- A slab that is linked behind the last owns nothing yet. -/
theorem Holds.extend (h : a.Holds live) {s : Slab} (hs : s.allocated = 0)
    (hhead : s.head = s.content)
    (hapart : ∀ t ∈ a.slabs, t.RoundedApart s) : Holds { a with slabs := a.slabs ++ [s] } live := by
  have hnone : ∀ b ∈ live, s.owns b = false := by
    intro b hb
    obtain ⟨-, t, ht, hplace⟩ := h.placed b hb
    exact (hapart t ht).not_owns ((h.keeps t ht).owns_of_below hplace)
  refine ⟨?_, ?_, ?_, h.disjoint⟩
  · refine List.pairwise_append.mpr ⟨h.apart, List.pairwise_singleton _ _, fun t ht u hu => ?_⟩
    rw [List.mem_singleton.mp hu]
    exact hapart t ht
  · intro t ht
    rcases List.mem_append.mp ht with ht | ht
    · exact h.keeps t ht
    · rw [List.mem_singleton.mp ht]
      refine ⟨hhead.ge, by rw [hhead]; exact Nat.le_add_right _ _, ?_, fun _ => hhead⟩
      have hnil : live.filter s.owns = [] := by
        rw [List.filter_eq_nil_iff]
        intro b hb
        rw [hnone b hb]
        exact Bool.false_ne_true
      rw [hs, hnil]
      rfl
  · intro b hb
    obtain ⟨hsize, t, ht, hplace⟩ := h.placed b hb
    exact ⟨hsize, t, List.mem_append_left _ ht, hplace⟩

variable (malloc : Malloc)

theorem holds_new (initialSize : Nat) : (Arena.new malloc.address initialSize).Holds [] where
  apart := List.pairwise_singleton _ _
  keeps s hs := by
    rw [List.mem_singleton.mp hs]
    exact ⟨Nat.le_refl _, Nat.le_add_right _ _, rfl, fun _ => rfl⟩
  placed b hb := by cases hb
  disjoint := .nil

/-- `allocate` either finds a slab with space or links one that has. -/
theorem Holds.allocate (h : a.Holds live) {size : Nat} (hpos : 0 < size) :
    (a.allocate malloc.address size).2.Holds
      (⟨(a.allocate malloc.address size).1, size⟩ :: live) := by
  rw [Arena.allocate]
  cases hfind : a.findSlabWithSpace size with
  | some found =>
      obtain ⟨before, s, behind⟩ := found
      obtain ⟨hsplit, hfree, -⟩ := splitFirst_eq_some hfind
      refine Holds.allocate_at ?_ hpos (of_decide_eq_true hfree)
      rw [← hsplit]
      exact h
  | none =>
      have hextend := h.extend rfl rfl (malloc.apart a.slabs (max size a.initialSize))
      refine hextend.allocate_at hpos ?_
      rw [Slab.free_new]
      exact Nat.le_max_left _ _

/-- The search by pointer finds the slab that a live block lies in. -/
theorem Holds.find (h : a.Holds live) {b : Block} (hb : b ∈ live) :
    ∃ before s behind, a.findSlabContaining b.ptr = some (before, s, behind) ∧
      a.slabs = before ++ s :: behind ∧ s.Below b := by
  obtain ⟨-, s, hs, hplace⟩ := h.placed b hb
  have howns := (h.keeps s hs).owns_of_below hplace
  have hcontains : s.pointerInBuffer b.ptr = true :=
    decide_eq_true ⟨hplace.1, Nat.le_trans (Nat.le_add_right _ _) hplace.2⟩
  cases hfind : a.findSlabContaining b.ptr with
  | none =>
      rw [splitFirst_eq_none hfind s hs] at hcontains
      cases hcontains
  | some found =>
      obtain ⟨before, t, behind⟩ := found
      obtain ⟨hsplit, hptr, -⟩ := splitFirst_eq_some hfind
      refine ⟨before, t, behind, rfl, hsplit, ?_⟩
      have hapart := h.apart
      rw [hsplit] at hs hapart
      -- a pointer into another slab's memory is not into this one's
      have hown' : t.owns b = true := by
        obtain ⟨hlow, hhead⟩ := of_decide_eq_true hptr
        have ht : t ∈ a.slabs := hsplit ▸ mem_split.mpr (.inl rfl)
        exact Slab.owns_iff.mpr ⟨hlow, hhead.trans (h.keeps t ht).high⟩
      rcases mem_split.mp hs with rfl | hother
      · exact hplace
      · rw [(apart_of_split hapart hother).not_owns hown'] at howns
        cases howns

/-- `deallocate` finds the slab of the block, and takes the block back. -/
theorem Holds.deallocate {b : Block} (h : a.Holds (b :: live)) :
    (a.deallocate b.ptr b.size).Holds live := by
  obtain ⟨before, s, behind, hfind, hsplit, hplace⟩ := h.find List.mem_cons_self
  obtain ⟨-, hplaced⟩ := List.forall_mem_cons.mp h.placed
  obtain ⟨hdisjoint, hlive⟩ := List.pairwise_cons.mp h.disjoint
  rw [Arena.deallocate, hfind]
  obtain ⟨initialSize, slabs⟩ := a
  change slabs = _ at hsplit
  subst hsplit
  have hs : s ∈ before ++ s :: behind := mem_split.mpr (.inl rfl)
  have howns := (h.keeps s hs).owns_of_below hplace
  obtain ⟨-, hkeeps, hbelow⟩ := (h.keeps s hs).deallocate hplace fun c hc hc' => by
    obtain ⟨hsize, u, hu, hcplace⟩ := hplaced c hc
    have hcown := (h.keeps u hu).owns_of_below hcplace
    refine ⟨hsize, ?_, hdisjoint c hc⟩
    rcases mem_split.mp hu with rfl | hother
    · exact hcplace
    · rw [(apart_of_split h.apart hother).not_owns hc'] at hcown
      cases hcown
  have hregion := s.region_deallocate b.ptr b.size
  refine ⟨pairwise_putBack h.apart ?_ ?_, ?_, ?_, hlive⟩
  · intro u hu
    rw [Slab.RoundedApart, hregion.1, hregion.2]
    exact hu
  · intro u hu
    rw [Slab.RoundedApart, hregion.1, hregion.2]
    exact hu
  · intro u hu
    rcases mem_split.mp hu with rfl | hother
    · exact hkeeps
    · exact (Slab.Keeps.cons_iff ((apart_of_split h.apart hother).not_owns howns)).mp
        (h.keeps u (mem_split.mpr (.inr hother)))
  · intro c hc
    obtain ⟨hsize, u, hu, hcplace⟩ := hplaced c hc
    refine ⟨hsize, ?_⟩
    rcases mem_split.mp hu with rfl | hother
    · exact ⟨_, mem_split.mpr (.inl rfl),
        hbelow c hc ((h.keeps u hu).owns_of_below hcplace)⟩
    · exact ⟨u, mem_split.mpr (.inr hother), hcplace⟩

/-! ## How many slabs there are -/

/-- Every slab is as large as the first. -/
def Uniform (a : Arena) : Prop := ∀ s ∈ a.slabs, s.size = a.initialSize

theorem length_le_live {slabs : List Slab} (hapart : slabs.Pairwise Slab.RoundedApart)
    (howns : ∀ s ∈ slabs, ∃ b ∈ live, s.owns b = true) : slabs.length ≤ live.length := by
  induction slabs generalizing live with
  | nil => exact Nat.zero_le _
  | cons s slabs ih =>
      obtain ⟨hs, hrest⟩ := List.pairwise_cons.mp hapart
      obtain ⟨⟨b, hb, hown⟩, howns⟩ := List.forall_mem_cons.mp howns
      -- the other slabs own blocks that this one does not
      have hothers : slabs.length ≤ (live.filter fun c => !s.owns c).length := by
        refine ih hrest fun t ht => ?_
        obtain ⟨c, hc, hcown⟩ := howns t ht
        refine ⟨c, List.mem_filter.mpr ⟨hc, ?_⟩, hcown⟩
        rw [(hs t ht).symm.not_owns hcown]
        rfl
      have hfewer : (live.filter fun c => !s.owns c).length < live.length := by
        refine List.length_filter_lt_length_iff_exists.mpr ⟨b, hb, ?_⟩
        rw [hown]
        exact Bool.false_ne_true
      rw [List.length_cons]
      omega

/-- A slab is linked only where each one there is has a live block. -/
theorem Holds.length_allocate (h : a.Holds live) (huniform : a.Uniform) {size : Nat}
    (hsize : size ≤ a.initialSize) :
    (a.allocate malloc.address size).2.Uniform ∧
      (a.allocate malloc.address size).2.slabs.length ≤ max a.slabs.length (live.length + 1) := by
  rw [Arena.allocate]
  cases hfind : a.findSlabWithSpace size with
  | some found =>
      obtain ⟨before, s, behind⟩ := found
      obtain ⟨hsplit, -, -⟩ := splitFirst_eq_some hfind
      refine ⟨fun t ht => ?_, ?_⟩
      · rcases mem_split.mp ht with rfl | ht
        · exact huniform s (hsplit ▸ mem_split.mpr (.inl rfl))
        · exact huniform t (hsplit ▸ mem_split.mpr (.inr ht))
      · rw [hsplit, List.length_append, List.length_append, List.length_cons, List.length_cons]
        exact Nat.le_max_left _ _
  | none =>
      have hfull : ∀ s ∈ a.slabs, ∃ b ∈ live, s.owns b = true := by
        intro s hs
        by_contra hnone
        have hhead : s.head = s.content := (h.keeps s hs).reset fun b hb => by
          by_contra howns
          exact hnone ⟨b, hb, Bool.not_eq_false _ ▸ howns⟩
        have hspace := splitFirst_eq_none hfind s hs
        have hroom := huniform s hs
        rw [decide_eq_false_iff_not, Slab.free, hhead] at hspace
        omega
      have hlen := length_le_live h.apart hfull
      refine ⟨fun t ht => ?_, ?_⟩
      · rcases List.mem_append.mp ht with ht | ht
        · exact huniform t ht
        · rw [List.mem_singleton.mp ht]
          exact Nat.max_eq_right hsize
      · rw [List.length_append, List.length_singleton]
        omega

theorem length_deallocate (huniform : a.Uniform) (ptr size : Nat) :
    (a.deallocate ptr size).Uniform ∧ (a.deallocate ptr size).slabs.length = a.slabs.length := by
  rw [Arena.deallocate]
  cases hfind : a.findSlabContaining ptr with
  | none => exact ⟨huniform, rfl⟩
  | some found =>
      obtain ⟨before, s, behind⟩ := found
      obtain ⟨hsplit, -, -⟩ := splitFirst_eq_some hfind
      refine ⟨fun t ht => ?_, ?_⟩
      · rcases mem_split.mp ht with rfl | ht
        · rw [(s.region_deallocate ptr size).2]
          exact huniform s (hsplit ▸ mem_split.mpr (.inl rfl))
        · exact huniform t (hsplit ▸ mem_split.mpr (.inr ht))
      · rw [hsplit, List.length_append, List.length_append, List.length_cons, List.length_cons]

/-! ## Nothing live -/

/-- Nothing is handed out, and every head is back at the start. -/
def Clean (a : Arena) : Prop := ∀ s ∈ a.slabs, s.allocated = 0 ∧ s.head = s.content

instance (a : Arena) : Decidable a.Clean :=
  inferInstanceAs (Decidable (∀ s ∈ a.slabs, s.allocated = 0 ∧ s.head = s.content))

/-- The arena is clean exactly if no block is live. -/
theorem Holds.clean_iff (h : a.Holds live) : a.Clean ↔ live = [] := by
  constructor
  · intro hclean
    cases live with
    | nil => rfl
    | cons b live =>
        obtain ⟨hpos, s, hs, hplace⟩ := h.placed b List.mem_cons_self
        have hsum := Slab.size_le_sum (List.mem_cons_self : b ∈ b :: live)
          ((h.keeps s hs).owns_of_below hplace)
        rw [← (h.keeps s hs).count, (hclean s hs).1] at hsum
        omega
  · rintro rfl s hs
    exact ⟨(h.keeps s hs).count, (h.keeps s hs).reset fun b hb => (by cases hb)⟩

end Arena

end Fastpath
