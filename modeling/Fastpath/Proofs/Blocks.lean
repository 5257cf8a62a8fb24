import Mathlib.Data.List.Pairwise
import Mathlib.Data.List.Perm.Basic
import Fastpath.Lib.Steps
import Fastpath.Proofs.Arena

/-!
# Runs of an arena

Blocks are handed out and come back in any order. A slab is known by where its
memory begins, and a block is noted together with the slab it came from: as long
as it is live, that slab is the only one with the block in its memory, so it is
also the one that the search by pointer answers with.

A slab has the memory that it says as long as its size can be rounded up in
`size_t`. Sizes that cannot are left out of the run: an arena that begins with
one has a slab without memory, and hands it out.
-/

namespace Fastpath

open Fastpath.Lib

theorem Slab.RoundedApart.content_ne {s t : Slab} (h : s.RoundedApart t) :
    s.content ≠ t.content := by
  intro heq
  rcases h with hlt | hlt <;> omega

theorem Slab.owns_congr {s t : Slab} (hcontent : t.content = s.content) (hsize : t.size = s.size)
    (b : Block) : t.owns b = s.owns b := by
  rw [owns, owns, hcontent, hsize]

/-- The largest size that `alignUp` does not wrap at. -/
def Slab.maxSize : Nat := 2 ^ 64 - 16

/-- The four low bits are cleared, which is what is left over of sixteen. -/
theorem Slab.toNat_clear (x : UInt64) : (x &&& ~~~15).toNat = x.toNat / 16 * 16 := by
  have hsplit : (x.toBitVec &&& 15#64) + (x.toBitVec &&& ~~~15#64) = x.toBitVec := by
    rw [BitVec.add_eq_or_of_and_eq_zero, ← BitVec.and_or_distrib_left]
    · rw [show 15#64 ||| ~~~15#64 = BitVec.allOnes 64 from by decide, BitVec.and_allOnes]
    · rw [← BitVec.and_assoc, BitVec.and_comm _ x.toBitVec, ← BitVec.and_assoc, BitVec.and_self,
        BitVec.and_assoc, show 15#64 &&& ~~~15#64 = 0#64 from by decide, BitVec.and_zero]
  have hlow : (x.toBitVec &&& 15#64).toNat = x.toNat % 16 := by
    rw [BitVec.toNat_and]
    exact Nat.and_two_pow_sub_one_eq_mod x.toNat 4
  have hle : (x.toBitVec &&& 15#64).toNat ≤ x.toBitVec.toNat := by
    rw [hlow]
    exact Nat.mod_le _ _
  have hclear : x.toBitVec &&& ~~~15#64 = x.toBitVec - (x.toBitVec &&& 15#64) := by
    rw [BitVec.eq_sub_iff_add_eq, BitVec.add_comm]
    exact hsplit
  show (x.toBitVec &&& ~~~15#64).toNat = _
  rw [hclear, BitVec.toNat_sub_of_le hle, hlow]
  show x.toNat - x.toNat % 16 = _
  omega

theorem Slab.contentSize_eq {s : Slab} (h : s.size ≤ maxSize) : s.contentSize = roundUp s.size := by
  rw [maxSize] at h
  have hadd : (UInt64.ofNat s.size + 15).toNat = s.size + 15 := by
    rw [UInt64.toNat_add, UInt64.toNat_ofNat']
    show (s.size % 2 ^ 64 + 15) % 2 ^ 64 = s.size + 15
    omega
  rw [contentSize, alignUp, toNat_clear, hadd, roundUp]

theorem Slab.apart_iff {s t : Slab} (hs : s.size ≤ maxSize) (ht : t.size ≤ maxSize) :
    s.Apart t ↔ s.RoundedApart t := by
  rw [Apart, RoundedApart, contentSize_eq hs, contentSize_eq ht]

namespace Arena

/-- Every slab is still there, with its memory. -/
def Extends (a' a : Arena) : Prop :=
  ∀ s ∈ a.slabs, ∃ s' ∈ a'.slabs, s'.content = s.content ∧ s'.size = s.size

theorem extends_of_split {a a' : Arena} {before behind : List Slab} {s s' : Slab}
    (h : a.slabs = before ++ s :: behind) (h' : a'.slabs = before ++ s' :: behind)
    (hregion : s'.content = s.content ∧ s'.size = s.size) : a'.Extends a := by
  intro t ht
  rw [h] at ht
  rw [h']
  rcases mem_split.mp ht with rfl | hother
  · exact ⟨s', mem_split.mpr (.inl rfl), hregion⟩
  · exact ⟨t, mem_split.mpr (.inr hother), rfl, rfl⟩

variable (address : List Slab → Nat → Nat) (malloc : Malloc)

/-- `m_content` of the slab that `allocate` takes from. -/
def source (a : Arena) (size : Nat) : Nat :=
  match a.findSlabWithSpace size with
  | some (_, s, _) => s.content
  | none => address a.slabs (max size a.initialSize)

theorem extends_allocate (a : Arena) (size : Nat) : (a.allocate address size).2.Extends a := by
  rw [allocate]
  cases hfind : a.findSlabWithSpace size with
  | some found =>
      obtain ⟨before, s, behind⟩ := found
      obtain ⟨hsplit, -, -⟩ := splitFirst_eq_some hfind
      exact extends_of_split hsplit rfl ⟨rfl, rfl⟩
  | none => exact fun s hs => ⟨s, List.mem_append_left _ hs, rfl, rfl⟩

theorem extends_deallocate (a : Arena) (ptr size : Nat) : (a.deallocate ptr size).Extends a := by
  rw [deallocate]
  cases hfind : a.findSlabContaining ptr with
  | some found =>
      obtain ⟨before, s, behind⟩ := found
      obtain ⟨hsplit, -, -⟩ := splitFirst_eq_some hfind
      exact extends_of_split hsplit rfl (s.region_deallocate ptr size)
  | none => exact fun s hs => ⟨s, hs, rfl, rfl⟩

theorem Holds.source {a : Arena} {live : List Block} (h : a.Holds live) (size : Nat) :
    ∃ s ∈ (a.allocate address size).2.slabs, s.content = a.source address size ∧
      s.owns ⟨(a.allocate address size).1, size⟩ = true := by
  rw [Arena.allocate, Arena.source]
  cases hfind : a.findSlabWithSpace size with
  | some found =>
      obtain ⟨before, s, behind⟩ := found
      obtain ⟨hsplit, -, -⟩ := splitFirst_eq_some hfind
      have hkeeps := h.keeps s (hsplit ▸ mem_split.mpr (.inl rfl))
      exact ⟨s.allocate size, mem_split.mpr (.inl rfl), rfl,
        Slab.owns_iff.mpr ⟨hkeeps.low, hkeeps.high⟩⟩
  | none =>
      refine ⟨_, List.mem_append_right _ List.mem_cons_self, rfl, ?_⟩
      exact Slab.owns_iff.mpr ⟨Nat.le_refl _, Nat.le_add_right _ _⟩

end Arena

/-- A block, and `m_content` of the slab it came from. -/
structure Lot where
  block : Block
  slab : Nat

/-- An arena, and the blocks that are live. -/
structure Occupancy where
  arena : Arena
  live : List Lot

namespace Occupancy

variable (address : List Slab → Nat → Nat)

inductive Call where
  | allocate (size : Nat)
  | deallocate (b : Block)

def step (o : Occupancy) : Call → Occupancy
  | .allocate size =>
      let (ptr, arena) := o.arena.allocate address size
      ⟨arena, ⟨⟨ptr, size⟩, o.arena.source address size⟩ :: o.live⟩
  | .deallocate b => ⟨o.arena.deallocate b.ptr b.size, o.live.eraseP (·.block = b)⟩

/-- What is asked for has a size, and what is given back is live. -/
def Proper (o : Occupancy) : Call → Prop
  | .allocate size => 0 < size
  | .deallocate b => b ∈ o.live.map Lot.block

instance decidableProper (o : Occupancy) (c : Call) : Decidable (o.Proper c) :=
  match c with
  | .allocate size => inferInstanceAs (Decidable (0 < size))
  | .deallocate b => inferInstanceAs (Decidable (b ∈ o.live.map Lot.block))

/-- A size that a slab can have memory for. -/
def Call.Small : Call → Prop
  | .allocate size => size ≤ Slab.maxSize
  | .deallocate _ => True

instance decidableSmall (c : Call) : Decidable c.Small :=
  match c with
  | .allocate size => inferInstanceAs (Decidable (size ≤ Slab.maxSize))
  | .deallocate _ => isTrue trivial

def new (initialSize : Nat) : Occupancy := ⟨.new address initialSize, []⟩

structure Sound (o : Occupancy) : Prop where
  holds : o.arena.Holds (o.live.map Lot.block)
  origin : ∀ l ∈ o.live, ∃ s ∈ o.arena.slabs, s.content = l.slab ∧ s.owns l.block = true

theorem sound_new (malloc : Malloc) (initialSize : Nat) :
    (new malloc.address initialSize).Sound where
  holds := Arena.holds_new malloc initialSize
  origin := List.forall_mem_nil _

variable {o : Occupancy}

theorem origin_of_extends {a a' : Arena} (h : a'.Extends a) {l : Lot}
    (hl : ∃ s ∈ a.slabs, s.content = l.slab ∧ s.owns l.block = true) :
    ∃ s ∈ a'.slabs, s.content = l.slab ∧ s.owns l.block = true := by
  obtain ⟨s, hs, hslab, howns⟩ := hl
  obtain ⟨s', hs', hcontent, hsize⟩ := h s hs
  exact ⟨s', hs', hcontent.trans hslab, (Slab.owns_congr hcontent hsize _).trans howns⟩

theorem Sound.step (malloc : Malloc) (h : o.Sound) {c : Call} (hc : o.Proper c) :
    (o.step malloc.address c).Sound := by
  cases c with
  | allocate size =>
      refine ⟨h.holds.allocate malloc hc,
        List.forall_mem_cons.mpr ⟨h.holds.source malloc.address size, ?_⟩⟩
      exact fun l hl =>
        origin_of_extends (o.arena.extends_allocate malloc.address size) (h.origin l hl)
  | deallocate b =>
      obtain ⟨l, hl, hb⟩ := List.mem_map.mp hc
      obtain ⟨l', before, behind, -, hb', hsplit, herase⟩ :=
        List.exists_of_eraseP (p := fun l => l.block = b) hl (decide_eq_true hb)
      have hblock : l'.block = b := of_decide_eq_true hb'
      have hperm : (o.live.map Lot.block).Perm
          (b :: (o.live.eraseP (·.block = b)).map Lot.block) := by
        rw [herase, hsplit, ← hblock, ← List.map_cons]
        exact List.perm_middle.map _
      refine ⟨(h.holds.perm hperm).deallocate, fun m hm => ?_⟩
      exact origin_of_extends (o.arena.extends_deallocate b.ptr b.size)
        (h.origin m (List.mem_of_mem_eraseP hm))

/-- Of the slabs, the one that a live block came from is the only one with the block in its
memory. -/
theorem Sound.owns_iff (h : o.Sound) {s : Slab} (hs : s ∈ o.arena.slabs) {l : Lot}
    (hl : l ∈ o.live) : s.owns l.block = true ↔ l.slab = s.content := by
  obtain ⟨t, ht, hslab, howns⟩ := h.origin l hl
  by_cases hsame : t = s
  · rw [← hsame]
    exact iff_of_true howns hslab.symm
  · have hsymm : Std.Symm Slab.RoundedApart := ⟨fun _ _ => Slab.RoundedApart.symm⟩
    have hapart : t.RoundedApart s := h.holds.apart.forall ht hs hsame
    rw [hapart.not_owns howns, ← hslab]
    exact iff_of_false Bool.false_ne_true hapart.content_ne

/-- What is to hold between any two calls. -/
structure Separate (o : Occupancy) : Prop where
  apart : o.arena.slabs.Pairwise Slab.Apart
  disjoint : (o.live.map Lot.block).Pairwise Block.Disjoint
  /-- What `deallocate` looks for, and what it takes from `m_allocated`. -/
  found : ∀ l ∈ o.live, ∃ before s behind,
    o.arena.findSlabContaining l.block.ptr = some (before, s, behind) ∧ s.content = l.slab ∧
      s.content ≤ l.block.ptr ∧ l.block.ptr + l.block.size ≤ s.content + s.size ∧
        l.block.ptr + l.block.size ≤ s.content + s.contentSize ∧ l.block.size ≤ s.allocated
  count : ∀ s ∈ o.arena.slabs,
    s.allocated = ((o.live.filter (·.slab = s.content)).map (·.block.size)).sum
  unused : ∀ s ∈ o.arena.slabs, (∀ l ∈ o.live, l.slab ≠ s.content) → s.free = s.size

/-- What the slabs are, and will be, can be rounded up. -/
structure Bounded (o : Occupancy) : Prop where
  first : o.arena.initialSize ≤ Slab.maxSize
  slabs : ∀ s ∈ o.arena.slabs, s.size ≤ Slab.maxSize

theorem Sound.separate (h : o.Sound) (hbound : o.Bounded) : o.Separate where
  apart := h.holds.apart.imp_of_mem fun hs ht hapart =>
    (Slab.apart_iff (hbound.slabs _ hs) (hbound.slabs _ ht)).mpr hapart
  disjoint := h.holds.disjoint
  found l hl := by
    have hmem := List.mem_map_of_mem (f := Lot.block) hl
    obtain ⟨before, s, behind, hfind, hsplit, hbelow⟩ := h.holds.find hmem
    have hs : s ∈ o.arena.slabs := hsplit ▸ Arena.mem_split.mpr (.inl rfl)
    have hkeeps := h.holds.keeps s hs
    have howns := hkeeps.owns_of_below hbelow
    have hend : l.block.ptr + l.block.size ≤ s.content + s.size := hbelow.2.trans hkeeps.high
    refine ⟨before, s, behind, hfind, ((h.owns_iff hs hl).mp howns).symm, hbelow.1, hend, ?_, ?_⟩
    · rw [Slab.contentSize_eq (hbound.slabs s hs)]
      exact hend.trans (Nat.add_le_add_left (Slab.le_roundUp s.size) _)
    · rw [hkeeps.count]
      exact Slab.size_le_sum hmem howns
  count s hs := by
    rw [(h.holds.keeps s hs).count, List.filter_map, List.map_map]
    have hcongr : o.live.filter (s.owns ∘ Lot.block) = o.live.filter (·.slab = s.content) :=
      List.filter_congr fun l hl => Bool.eq_iff_iff.mpr
        ((h.owns_iff hs hl).trans decide_eq_true_iff.symm)
    rw [hcongr]
    rfl
  unused s hs hnone := by
    have hhead := (h.holds.keeps s hs).reset fun b hb => by
      obtain ⟨l, hl, rfl⟩ := List.mem_map.mp hb
      exact Bool.eq_false_iff.mpr fun howns => hnone l hl ((h.owns_iff hs hl).mp howns)
    rw [Slab.free, hhead, Nat.sub_self, Nat.sub_zero]

variable (malloc : SlabMalloc)

/-- The same addresses for the slabs that can be rounded up. -/
def unwrapped : Malloc where
  address slabs size :=
    if (∀ s ∈ slabs, s.size ≤ Slab.maxSize) ∧ size ≤ Slab.maxSize then malloc.address slabs size
    else Malloc.bump.address slabs size
  apart slabs size s hs := by
    split
    · next hsmall =>
        exact (Slab.apart_iff (hsmall.1 s hs) hsmall.2).mp (malloc.apart slabs size s hs)
    · exact Malloc.bump.apart slabs size s hs

theorem address_unwrapped {slabs : List Slab} {size : Nat}
    (hslabs : ∀ s ∈ slabs, s.size ≤ Slab.maxSize) (hsize : size ≤ Slab.maxSize) :
    (unwrapped malloc).address slabs size = malloc.address slabs size :=
  if_pos ⟨hslabs, hsize⟩

theorem Bounded.step_unwrapped (h : o.Bounded) {c : Call} (hc : c.Small) :
    o.step (unwrapped malloc).address c = o.step malloc.address c := by
  cases c with
  | allocate size =>
      have haddress := address_unwrapped malloc h.slabs (Nat.max_le.mpr ⟨hc, h.first⟩)
      simp only [step, Arena.allocate, Arena.source, haddress]
  | deallocate b => rfl

theorem Bounded.step (h : o.Bounded) {c : Call} (hc : c.Small) : (o.step address c).Bounded := by
  cases c with
  | allocate size =>
      show Bounded ⟨(o.arena.allocate address size).2, _⟩
      rw [Arena.allocate]
      cases hfind : o.arena.findSlabWithSpace size with
      | some found =>
          obtain ⟨before, s, behind⟩ := found
          obtain ⟨hsplit, -, -⟩ := splitFirst_eq_some hfind
          have hslabs := h.slabs
          rw [hsplit] at hslabs
          refine ⟨h.first, fun t ht => ?_⟩
          rcases Arena.mem_split.mp ht with rfl | hother
          · exact hslabs s (Arena.mem_split.mpr (.inl rfl))
          · exact hslabs t (Arena.mem_split.mpr (.inr hother))
      | none =>
          refine ⟨h.first, fun t ht => ?_⟩
          rcases List.mem_append.mp ht with ht | ht
          · exact h.slabs t ht
          · rw [List.mem_singleton.mp ht]
            exact Nat.max_le.mpr ⟨hc, h.first⟩
  | deallocate b =>
      show Bounded ⟨o.arena.deallocate b.ptr b.size, _⟩
      rw [Arena.deallocate]
      cases hfind : o.arena.findSlabContaining b.ptr with
      | some found =>
          obtain ⟨before, s, behind⟩ := found
          obtain ⟨hsplit, -, -⟩ := splitFirst_eq_some hfind
          have hslabs := h.slabs
          rw [hsplit] at hslabs
          refine ⟨h.first, fun t ht => ?_⟩
          rcases Arena.mem_split.mp ht with rfl | hother
          · rw [(s.region_deallocate b.ptr b.size).2]
            exact hslabs s (Arena.mem_split.mpr (.inl rfl))
          · exact hslabs t (Arena.mem_split.mpr (.inr hother))
      | none => exact ⟨h.first, h.slabs⟩

/-- Whatever is handed out and taken back, blocks do not overlap and slabs account for them. -/
theorem always_separate {initialSize : Nat} (hsize : initialSize ≤ Slab.maxSize)
    (calls : List Call)
    (hproper : Along (step malloc.address) (fun o c => o.Proper c ∧ c.Small)
      (new malloc.address initialSize) calls) :
    Always (step malloc.address) Separate (new malloc.address initialSize) calls := by
  have hnew : new (unwrapped malloc).address initialSize = new malloc.address initialSize := by
    rw [new, Arena.new, address_unwrapped malloc (List.forall_mem_nil _) hsize]
    rfl
  have hsound : (new malloc.address initialSize).Sound :=
    hnew ▸ sound_new (unwrapped malloc) initialSize
  have hbound : (new malloc.address initialSize).Bounded :=
    ⟨hsize, fun s hs => by rw [List.mem_singleton.mp hs]; exact hsize⟩
  have hinv := hproper.always (I := fun o => o.Sound ∧ o.Bounded)
    (fun o c ho hc => ⟨ho.2.step_unwrapped malloc hc.2 ▸ ho.1.step (unwrapped malloc) hc.1,
      ho.2.step malloc.address hc.2⟩) ⟨hsound, hbound⟩
  exact hinv.mono fun _ ho => ho.1.separate ho.2

theorem bumped_separate :
    Always (step SlabMalloc.bump.address) Separate (new SlabMalloc.bump.address 16)
      [.allocate 10, .allocate 8, .allocate 4, .deallocate ⟨1, 10⟩, .deallocate ⟨11, 4⟩,
        .allocate 16] :=
  always_separate .bump (by decide) _ (by decide)

/-- The rounding up of the largest size comes to nothing, and ten bytes of it are handed out. -/
theorem wrapped_not_separate :
    Along (step SlabMalloc.bump.address) Proper (new SlabMalloc.bump.address (2 ^ 64 - 1))
        [.allocate 10] ∧
      ¬ Always (step SlabMalloc.bump.address) Separate
        (new SlabMalloc.bump.address (2 ^ 64 - 1)) [.allocate 10] := by
  refine ⟨by decide, fun ⟨_, hend⟩ => ?_⟩
  obtain ⟨before, s, behind, hfind, -, -, -, hmemory, -⟩ :=
    Separate.found hend ⟨⟨1, 10⟩, 1⟩ (List.mem_singleton.mpr rfl)
  have hs : s = ⟨1, 2 ^ 64 - 1, 10, 11⟩ := by
    have hfound : some (before, s, behind) = some ([], ⟨1, 2 ^ 64 - 1, 10, 11⟩, []) :=
      hfind.symm.trans (by decide)
    cases hfound
    rfl
  rw [hs] at hmemory
  exact absurd hmemory (by decide)

end Occupancy

end Fastpath
