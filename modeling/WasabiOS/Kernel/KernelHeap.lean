import WasabiOS.Kernel.SlabBlocks
import WasabiOS.Machinery.Run

/-!
# Kernel/KernelHeap — the heap of the kernel

Small allocations go to one of three slab allocators, by size alone, the others to a linked list heap,
from which the slab allocators get their blocks as well.  The linked list heap is an `Allocator`.

The contract of the heap (`HeapCall.Sound`) holds along a run exactly if its calls are proper
(`heapSound_iff`).  Improper are an `alloc` whose alignment is larger than the slab allocator its size
leads to, or that finds this slab allocator without a block while the linked list heap could serve it, and
a `free` of what ends with the last byte of the heap.
-/

open Machinery Prog
open Function (update update_self update_of_ne)
namespace WasabiOS
open List Run

/-- the sizes of the slab allocators used by the kernel heap -/
def SLAB_ALLOCATOR_SIZES_BYTES : List ℕ := [4, 64, 256]

/-- The slab allocators of the kernel heap. -/
abbrev Slab : Type := Fin SLAB_ALLOCATOR_SIZES_BYTES.length

/-- The size a slab allocator is made for. -/
def Slab.bytes (i : Slab) : ℕ := SLAB_ALLOCATOR_SIZES_BYTES.get i

/-- represents the heap used by the kernel -/
structure KernelHeap (H : Type) where
  /-- start addr of the heap -/
  start : ℕ
  /-- end addr of the heap (inclusive) -/
  end_ : ℕ
  /-- the slab allocators used by this heap -/
  slabAllocators : Slab → SlabAllocator
  /-- a linked list allocator for allocations that can't be provided by the slab allocators, also used to
  allocate the blocks -/
  linkedHeap : H

variable {H : Type} {lo hi : ℕ} {A : Allocator H lo hi} {s : KernelHeap H} {cuts : Slab → List Cut}
  {blocks : Slab → List ℕ} {e : Allocation} {h : H} {t : SlabHeap H} {i : Slab}

namespace KernelHeap
variable {s : KernelHeap H}

/-- One slab allocator, over the linked list heap. -/
def slabHeap (i : Slab) (s : KernelHeap H) : SlabHeap H := ⟨s.slabAllocators i, s.linkedHeap⟩

/-- One slab allocator and the linked list heap, after an operation. -/
def setSlabHeap (i : Slab) (t : SlabHeap H) (s : KernelHeap H) : KernelHeap H :=
  { s with slabAllocators := update s.slabAllocators i t.slab, linkedHeap := t.allocator }

/-- The linked list heap, after an operation. -/
def setLinkedHeap (h : H) (s : KernelHeap H) : KernelHeap H := { s with linkedHeap := h }

theorem slabHeap_setSlabHeap_self : (s.setSlabHeap i t).slabHeap i = t :=
  congrArg (SlabHeap.mk · t.allocator) (update_self ..)

theorem slabHeap_setSlabHeap_of_ne {j : Slab} (hj : j ≠ i) :
    (s.setSlabHeap i t).slabHeap j = ⟨s.slabAllocators j, t.allocator⟩ :=
  congrArg (SlabHeap.mk · t.allocator) (update_of_ne hj ..)

/-- An operation of one slab allocator. -/
def onSlab {α : Type} (i : Slab) (m : Prog (SlabHeap H) HeapError α) : Prog (KernelHeap H) HeapError α :=
  zoom (slabHeap i) (setSlabHeap i) m

/-- creates a heap for the addresses from `lo` to `hi` -/
def new (lo hi : ℕ) (heap : H) : KernelHeap H where
  start := lo
  end_ := hi - 1
  slabAllocators i := ⟨i.bytes, none, fun _ => none⟩
  linkedHeap := heap

/-- The first slab allocator that is large enough. -/
def slabFor (size : ℕ) (s : KernelHeap H) : Option Slab :=
  (List.finRange SLAB_ALLOCATOR_SIZES_BYTES.length).find? fun i => size ≤ (s.slabAllocators i).size

variable (A : Allocator H lo hi)

/-- init the kernel allocator -/
def init : Prog (KernelHeap H) HeapError Unit :=
  forEach (fun i => onSlab i (SlabAllocator.init A)) (List.finRange SLAB_ALLOCATOR_SIZES_BYTES.length)

/-- allocate from the linked list heap -/
def linkedAlloc (layout : Layout) : Prog (KernelHeap H) HeapError ℕ := do
  let s ← Prog.get
  match A.alloc layout s.linkedHeap with
  | none => Prog.throw .outOfMemory
  | some (ptr, h) =>
    Prog.modify (setLinkedHeap h)
    return ptr

/-- allocate memory for a layout -/
def alloc (layout : Layout) : Prog (KernelHeap H) HeapError ℕ := do
  if layout.size = 0 then Prog.throw .zeroSizeAllocation
  else
    let s ← Prog.get
    match s.slabFor layout.size with
    | some i => onSlab i (SlabAllocator.alloc A layout)
    | none => linkedAlloc A layout

/-- free a pointer with a given layout -/
def free (ptr : ℕ) (layout : Layout) : Prog (KernelHeap H) HeapError Unit := do
  let s ← Prog.get
  if ptr < s.start ∨ s.end_ < ptr + layout.size then Prog.throw (.ptrNotAllocated ptr)
  else
    match s.slabFor layout.size with
    | some i => onSlab i (SlabAllocator.free A ptr layout)
    | none => Prog.modify fun s => s.setLinkedHeap (A.free ptr layout s.linkedHeap)
end KernelHeap

/-! ## What is allocated -/

/-- An allocation that has not been freed. -/
structure Allocation where
  ptr : ℕ
  layout : Layout
  deriving DecidableEq

/-- The slab allocators with their allocations and blocks. -/
structure Layered (A : Allocator H lo hi) (s : KernelHeap H) (cuts : Slab → List Cut) (blocks : Slab → List ℕ) :
    Prop where
  start_eq : s.start = lo
  end_eq : s.end_ = hi - 1
  size_eq : ∀ i, (s.slabAllocators i).size = i.bytes
  slab : ∀ i, SlabInv A (s.slabHeap i) (cuts i) (blocks i)
  apart : ∀ i j, i ≠ j → ∀ b ∈ blocks i, b ∉ blocks j

/-- The slab allocator for a size. -/
def slabOf (size : ℕ) : Option Slab := (List.finRange SLAB_ALLOCATOR_SIZES_BYTES.length).find? fun i => size ≤ i.bytes

/-- A live allocation is one of its slab allocator, or one of the linked list heap. -/
structure Backed (A : Allocator H lo hi) (s : KernelHeap H) (cuts : Slab → List Cut) (blocks : Slab → List ℕ)
    (e : Allocation) : Prop where
  inside : lo ≤ e.ptr ∧ e.ptr + e.layout.size ≤ hi
  small : ∀ i, slabOf e.layout.size = some i → ∃ c ∈ cuts i, c.ptr = e.ptr ∧ c.layout = e.layout
  large : slabOf e.layout.size = none → A.live s.linkedHeap e.ptr = some e.layout ∧ ∀ i, e.ptr ∉ blocks i

/-- **The invariant of the kernel heap.** -/
structure HeapInv (A : Allocator H lo hi) (s : KernelHeap H) (live : List Allocation)
    (cuts : Slab → List Cut) (blocks : Slab → List ℕ) : Prop where
  layered : Layered A s cuts blocks
  backed : ∀ e ∈ live, Backed A s cuts blocks e
  nodup : live.Nodup

variable {cs : List Cut} {bs : List ℕ}

theorem Layered.slabFor_eq (hs : Layered A s cuts blocks) (size : ℕ) : s.slabFor size = slabOf size := by
  rw [KernelHeap.slabFor, slabOf]
  refine congrArg (find? · _) (funext fun i => ?_)
  rw [hs.size_eq i]

/-- An operation of one slab allocator leaves the others as they are. -/
theorem Layered.setSlabHeap (hs : Layered A s cuts blocks) (ht : SlabInv A t cs bs)
    (hdrawn : Drawn A s.linkedHeap (blocks i) t.allocator bs) (hsize : t.slab.size = i.bytes) :
    Layered A (s.setSlabHeap i t) (update cuts i cs) (update blocks i bs) := by
  have hother : ∀ j, j ≠ i → ∀ b ∈ blocks j, b ∉ bs := by
    intro j hj b hb hbs
    rcases hdrawn.fresh b hbs with hmem | hnone
    · exact hs.apart j i hj b hb hmem
    · exact absurd (((hs.slab j).held b hb).symm.trans hnone) (by simp)
  refine ⟨hs.start_eq, hs.end_eq, fun j => ?_, fun j => ?_, fun j k hjk b hb => ?_⟩
  · show ((s.setSlabHeap i t).slabHeap j).slab.size = j.bytes
    by_cases hj : j = i
    · subst hj
      rw [KernelHeap.slabHeap_setSlabHeap_self]
      exact hsize
    · rw [KernelHeap.slabHeap_setSlabHeap_of_ne hj]
      exact hs.size_eq j
  · by_cases hj : j = i
    · subst hj
      rw [update_self, update_self, KernelHeap.slabHeap_setSlabHeap_self]
      exact ht
    · rw [update_of_ne hj, update_of_ne hj, KernelHeap.slabHeap_setSlabHeap_of_ne hj]
      refine (hs.slab j).frame fun b hb => hdrawn.keep b (hs.apart j i hj b hb) ?_
      exact fun hnone => absurd (((hs.slab j).held b hb).symm.trans hnone) (by simp)
  · by_cases hj : j = i
    · subst hj
      rw [update_self] at hb
      rw [update_of_ne (Ne.symm hjk)]
      exact fun hb' => hother k (Ne.symm hjk) b hb' hb
    · rw [update_of_ne hj] at hb
      by_cases hk : k = i
      · subst hk
        rw [update_self]
        exact hother j hj b hb
      · rw [update_of_ne hk]
        exact hs.apart j k hjk b hb

/-- …and the allocations of the others. -/
theorem Backed.setSlabHeap (he : Backed A s cuts blocks e) (hdrawn : Drawn A s.linkedHeap (blocks i) t.allocator bs)
    (hcuts : slabOf e.layout.size = some i → ∃ c ∈ cs, c.ptr = e.ptr ∧ c.layout = e.layout) :
    Backed A (s.setSlabHeap i t) (update cuts i cs) (update blocks i bs) e := by
  refine ⟨he.inside, fun j hj => ?_, fun hnone => ?_⟩
  · by_cases hji : j = i
    · subst hji
      rw [update_self]
      exact hcuts hj
    · rw [update_of_ne hji]
      exact he.small j hj
  · obtain ⟨hlive, hblocks⟩ := he.large hnone
    have hsome : A.live s.linkedHeap e.ptr ≠ none := hlive ▸ Option.some_ne_none _
    refine ⟨(hdrawn.keep e.ptr (hblocks i) hsome).trans hlive, fun j => ?_⟩
    by_cases hji : j = i
    · subst hji
      rw [update_self]
      exact fun hbs => (hdrawn.fresh e.ptr hbs).elim (hblocks j) hsome
    · rw [update_of_ne hji]
      exact hblocks j

/-- An operation of the linked list heap leaves the slab allocators as they are. -/
theorem Layered.setLinkedHeap (hs : Layered A s cuts blocks)
    (hkeep : ∀ i, ∀ b ∈ blocks i, A.live h b = A.live s.linkedHeap b) :
    Layered A (s.setLinkedHeap h) cuts blocks :=
  ⟨hs.start_eq, hs.end_eq, hs.size_eq, fun i => (hs.slab i).frame (hkeep i), hs.apart⟩

theorem Backed.setLinkedHeap (he : Backed A s cuts blocks e)
    (hkeep : slabOf e.layout.size = none → A.live h e.ptr = A.live s.linkedHeap e.ptr) :
    Backed A (s.setLinkedHeap h) cuts blocks e :=
  ⟨he.inside, he.small, fun hnone => ⟨(hkeep hnone).trans (he.large hnone).1, (he.large hnone).2⟩⟩

/-! ## Sizes -/

theorem Slab.bytes_dvd (i : Slab) : i.bytes ∣ SLAB_BLOCK_SIZE := by
  revert i
  decide

theorem Slab.bytes_le (i : Slab) : i.bytes ≤ 256 := by
  revert i
  decide

theorem Slab.bytes_eq (i : Slab) : ∃ m : Fin 11, i.bytes = 2 ^ m.val := by
  revert i
  decide

theorem Slab.bytes_pos (i : Slab) : 0 < i.bytes := Nat.pos_of_dvd_of_pos i.bytes_dvd SLAB_BLOCK_SIZE_pos

/-- A new block has space. -/
theorem Slab.fresh_not_full (i : Slab) (b : ℕ) : (SlabBlock.fresh i.bytes b).isFull i.bytes = false := by
  have hlt : U64.alignUp i.bytes (b + SlabBlock.SIZE) < b + SlabBlock.SIZE + i.bytes := U64.alignUp_lt i.bytes_pos
  have hle := i.bytes_le
  have hheader : SlabBlock.SIZE = 48 := rfl
  have hblock : SLAB_BLOCK_SIZE = 1024 := rfl
  refine decide_eq_false (Nat.not_le_of_lt ?_)
  show U64.alignUp i.bytes (b + SlabBlock.SIZE) + 0 + i.bytes < b + (SLAB_BLOCK_SIZE - 1)
  omega

/-- What is aligned to the size of a slab allocator is aligned to each smaller alignment. -/
theorem Slab.align_dvd (i : Slab) {layout : Layout} (halign : layout.align ≤ i.bytes) : layout.align ∣ i.bytes := by
  obtain ⟨k, hk⟩ := layout.isPowerOfTwo
  obtain ⟨m, hm⟩ := i.bytes_eq
  rw [hk, hm] at halign ⊢
  exact pow_dvd_pow 2 ((Nat.pow_le_pow_iff_right one_lt_two).1 halign)

/-! ## Allocating and freeing -/

/-- An allocation that will succeed: the slab allocator for the size takes the alignment and has space or
gets a block, or the linked list heap serves the layout. -/
def KernelHeap.CanAlloc (A : Allocator H lo hi) (layout : Layout) (s : KernelHeap H) : Prop :=
  match s.slabFor layout.size with
  | some i => layout.align ≤ (s.slabAllocators i).size ∧
    ((s.slabAllocators i).HasRoom ∨ A.alloc SlabBlock.layout s.linkedHeap ≠ none)
  | none => A.alloc layout s.linkedHeap ≠ none

variable {live : List Allocation} {layout : Layout} {b ptr : ℕ}
section
variable (hs : HeapInv A s live cuts blocks)
include hs

/-- A new allocation of a slab allocator. -/
theorem HeapInv.cut (hclass : slabOf layout.size = some i)
    (ht : Leads A (s.slabHeap i) (blocks i) (⟨ptr, layout, b⟩ :: cuts i) t) :
    (∃ cuts' blocks', HeapInv A (s.setSlabHeap i t) (⟨ptr, layout⟩ :: live) cuts' blocks') ∧ i.bytes ∣ ptr := by
  obtain ⟨bs, hinv, hdrawn, hsize⟩ := ht
  have hbytes : t.slab.size = i.bytes := hsize.trans (hs.layered.size_eq i)
  obtain ⟨hblock, hfits⟩ := hinv.cut _ mem_cons_self
  obtain ⟨v, -, hcarved⟩ := hinv.carved b hblock
  obtain ⟨hfront, hback⟩ : b + SlabBlock.SIZE ≤ ptr ∧ ptr + t.slab.size ≤ b + SLAB_BLOCK_SIZE :=
    hcarved.inside hinv.size_pos mem_cons_self rfl
  obtain ⟨hlo, hhi⟩ := hinv.inside b hblock
  have hdvd : i.bytes ∣ ptr := hbytes ▸ hcarved.dvd hinv.size_pos mem_cons_self rfl
  have hother : ∀ c ∈ cuts i, ptr ≠ c.ptr := (pairwise_cons.1 hinv.distinct).1
  refine ⟨⟨_, _, hs.layered.setSlabHeap hinv hdrawn hbytes, fun e he => ?_,
    nodup_cons.2 ⟨fun he => ?_, hs.nodup⟩⟩, hdvd⟩
  · rcases mem_cons.1 he with rfl | he
    · have hle : layout.size ≤ t.slab.size := hfits.1
      have hinside : lo ≤ ptr ∧ ptr + layout.size ≤ hi := ⟨by omega, by omega⟩
      refine ⟨hinside, fun j hj => ?_, fun hnone => ?_⟩
      · cases hclass.symm.trans hj
        rw [update_self]
        exact ⟨_, mem_cons_self, rfl, rfl⟩
      · exact absurd (hclass.symm.trans hnone) (by simp)
    · refine (hs.backed e he).setSlabHeap hdrawn fun hi => ?_
      obtain ⟨c, hc, hce⟩ := (hs.backed e he).small i hi
      exact ⟨c, mem_cons_of_mem _ hc, hce⟩
  · obtain ⟨c, hc, hptr, -⟩ := (hs.backed _ he).small i hclass
    exact hother c hc hptr.symm

/-- A failed allocation of a slab allocator. -/
theorem HeapInv.refused (ht : Leads A (s.slabHeap i) (blocks i) (cuts i) t) :
    ∃ cuts' blocks', HeapInv A (s.setSlabHeap i t) live cuts' blocks' := by
  obtain ⟨bs, hinv, hdrawn, hsize⟩ := ht
  exact ⟨_, _, hs.layered.setSlabHeap hinv hdrawn (hsize.trans (hs.layered.size_eq i)),
    fun e he => (hs.backed e he).setSlabHeap hdrawn ((hs.backed e he).small i), hs.nodup⟩

/-- A new allocation of the linked list heap. -/
theorem HeapInv.linked (hclass : slabOf layout.size = none) (halloc : A.alloc layout s.linkedHeap = some (ptr, h)) :
    HeapInv A (s.setLinkedHeap h) (⟨ptr, layout⟩ :: live) cuts blocks := by
  have hfresh := A.alloc_fresh halloc
  have hkeep : ∀ q, A.live s.linkedHeap q ≠ none → A.live h q = A.live s.linkedHeap q := by
    intro q hq
    rw [A.alloc_live halloc, update_of_ne]
    rintro rfl
    exact hq hfresh
  have hheld : ∀ i, ∀ b ∈ blocks i, A.live s.linkedHeap b ≠ none := by
    intro i b hb hnone
    exact absurd (((hs.layered.slab i).held b hb).symm.trans hnone) (by simp)
  refine ⟨hs.layered.setLinkedHeap fun i b hb => hkeep b (hheld i b hb), fun e he => ?_,
    nodup_cons.2 ⟨fun he => ?_, hs.nodup⟩⟩
  · rcases mem_cons.1 he with rfl | he
    · refine ⟨A.alloc_inside halloc, fun j hj => absurd (hj.symm.trans hclass) (by simp),
        fun _ => ⟨?_, fun i hi => hheld i _ hi hfresh⟩⟩
      show A.live h ptr = some layout
      rw [A.alloc_live halloc, update_self]
    · refine (hs.backed e he).setLinkedHeap fun hnone => hkeep _ ?_
      exact ((hs.backed e he).large hnone).1 ▸ Option.some_ne_none _
  · exact absurd (hfresh.symm.trans ((hs.backed _ he).large hclass).1) (by simp)

/-- **What `alloc` does.** -/
theorem HeapInv.alloc_wp (hhi : hi ≤ 2 ^ 64) (layout : Layout) : (KernelHeap.alloc A layout).wp
      (fun ptr s' => (∃ cuts' blocks', HeapInv A s' (⟨ptr, layout⟩ :: live) cuts' blocks') ∧
        layout.align ∣ ptr ∧ s.CanAlloc A layout)
      (fun _ s' => (∃ cuts' blocks', HeapInv A s' live cuts' blocks') ∧
        (layout.size = 0 ∨ ¬ s.CanAlloc A layout)) s := by
  unfold KernelHeap.alloc
  by_cases hzero : layout.size = 0
  · rw [if_pos hzero]
    exact ⟨⟨cuts, blocks, hs⟩, .inl hzero⟩
  · rw [if_neg hzero, wp_bind, wp_get, KernelHeap.CanAlloc, hs.layered.slabFor_eq]
    cases hclass : slabOf layout.size with
    | some i =>
      have hsize := hs.layered.size_eq i
      simp only [KernelHeap.onSlab, SlabAllocator.alloc, wp_zoom, wp_map]
      refine wp_mono ((hs.layered.slab i).allocFrom_wp hhi layout) ?_ ?_
      · rintro ⟨b, ptr⟩ t ⟨hleads, ⟨-, halign⟩, hroom⟩
        obtain ⟨hinv, hdvd⟩ := hs.cut hclass hleads
        refine ⟨hinv, (i.align_dvd ?_).trans hdvd, halign, hroom⟩
        rw [← hsize]
        exact halign
      · rintro - t ⟨hleads, hrefused⟩
        refine ⟨hs.refused hleads, .inr ?_⟩
        rintro ⟨halign, hroom⟩
        have hle := find?_some (p := fun i : Slab => decide (layout.size ≤ i.bytes)) hclass
        have hfits : (s.slabAllocators i).Fits layout := ⟨hsize ▸ of_decide_eq_true hle, halign⟩
        obtain ⟨hfull, hnone | ⟨b, hb⟩⟩ := hrefused hfits
        · exact hroom.elim hfull fun hsome => hsome hnone
        · have hfresh := i.fresh_not_full b
          rw [← hsize] at hfresh
          exact absurd (hb.symm.trans hfresh) Bool.noConfusion
    | none =>
      simp only [KernelHeap.linkedAlloc, wp_bind, wp_get]
      cases halloc : A.alloc layout s.linkedHeap with
      | none => exact ⟨⟨cuts, blocks, hs⟩, .inr fun hsome => hsome rfl⟩
      | some r =>
        obtain ⟨ptr, h⟩ := r
        exact ⟨⟨cuts, blocks, hs.linked hclass halloc⟩, A.alloc_aligned halloc, Option.some_ne_none _⟩

/-- A slab allocator gets an allocation back. -/
theorem HeapInv.uncut (he : e ∈ live) (hclass : slabOf e.layout.size = some i)
    (ht : Leads A (s.slabHeap i) (blocks i) ((cuts i).eraseP fun c => c.ptr = e.ptr) t) :
    ∃ cuts' blocks', HeapInv A (s.setSlabHeap i t) (live.erase e) cuts' blocks' := by
  obtain ⟨bs, hinv, hdrawn, hsize⟩ := ht
  obtain ⟨c, hc, hptr, hlayout⟩ := (hs.backed e he).small i hclass
  refine ⟨_, _, hs.layered.setSlabHeap hinv hdrawn (hsize.trans (hs.layered.size_eq i)), fun e' he' => ?_,
    hs.nodup.erase e⟩
  obtain ⟨hne, he'⟩ := hs.nodup.mem_erase_iff.1 he'
  refine (hs.backed e' he').setSlabHeap hdrawn fun hclass' => ?_
  obtain ⟨c', hc', hptr', hlayout'⟩ := (hs.backed e' he').small i hclass'
  refine ⟨c', (mem_eraseP_of_neg fun heq => hne ?_).2 hc', hptr', hlayout'⟩
  -- two allocations at one address are one
  have hcc : c' = c := (hs.layered.slab i).eq_of_ptr hc' hc ((of_decide_eq_true heq).trans hptr.symm)
  subst hcc
  cases e
  cases e'
  cases hptr
  cases hptr'
  cases hlayout
  cases hlayout'
  rfl

/-- The linked list heap gets an allocation back. -/
theorem HeapInv.unlinked (he : e ∈ live) (hclass : slabOf e.layout.size = none) :
    HeapInv A (s.setLinkedHeap (A.free e.ptr e.layout s.linkedHeap)) (live.erase e) cuts blocks := by
  obtain ⟨hlive, hblocks⟩ := (hs.backed e he).large hclass
  have hkeep : ∀ q, q ≠ e.ptr → A.live (A.free e.ptr e.layout s.linkedHeap) q = A.live s.linkedHeap q := by
    intro q hq
    rw [A.free_live hlive, update_of_ne hq]
  refine ⟨hs.layered.setLinkedHeap fun i b hb => hkeep b ?_, fun e' he' => ?_, hs.nodup.erase e⟩
  · rintro rfl
    exact hblocks i hb
  · obtain ⟨hne, he'⟩ := hs.nodup.mem_erase_iff.1 he'
    refine (hs.backed e' he').setLinkedHeap fun hclass' => hkeep _ fun hptr => hne ?_
    have hlive' := ((hs.backed e' he').large hclass').1
    rw [hptr, hlive] at hlive'
    cases e
    cases e'
    cases hptr
    cases hlive'
    rfl

/-- **What `free` does** with a live allocation that ends before the last byte. -/
theorem HeapInv.free_wp (hhi : hi ≤ 2 ^ 64) (he : e ∈ live) (hend : e.ptr + e.layout.size ≤ s.end_) :
    (KernelHeap.free A e.ptr e.layout).wp
      (fun _ s' => ∃ cuts' blocks', HeapInv A s' (live.erase e) cuts' blocks') (fun _ _ => False) s := by
  have hstart : s.start ≤ e.ptr := hs.layered.start_eq ▸ (hs.backed e he).inside.1
  rw [KernelHeap.free, wp_bind, wp_get, if_neg (not_or.2 ⟨hstart.not_gt, hend.not_gt⟩), hs.layered.slabFor_eq]
  cases hclass : slabOf e.layout.size with
  | some i =>
    obtain ⟨c, hc, hptr, hlayout⟩ := (hs.backed e he).small i hclass
    have hfree := (hs.layered.slab i).free_wp hhi hc
    rw [hptr, hlayout] at hfree
    simp only [KernelHeap.onSlab, wp_zoom]
    exact wp_mono hfree (fun _ t ht => hs.uncut he hclass ht) fun _ _ => False.elim
  | none => exact ⟨cuts, blocks, hs.unlinked he hclass⟩
end

/-- …and with one that ends at the last byte, or after it. -/
theorem KernelHeap.free_of_lt (hend : s.end_ < ptr + layout.size) :
    KernelHeap.free A ptr layout s = .err (.ptrNotAllocated ptr) s := by
  rw [KernelHeap.free, bind_apply, get_apply, andThen_ok, if_pos (.inr hend)]
  rfl

/-- The slab allocators are started one after another. -/
theorem Layered.init_wp {l : List Slab} (hl : l.Nodup) (hs : Layered A s (fun _ => []) blocks)
    (hempty : ∀ i ∈ l, blocks i = []) :
    (forEach (fun i => KernelHeap.onSlab i (SlabAllocator.init A)) l).wp
      (fun _ s' => ∃ blocks', Layered A s' (fun _ => []) blocks') (fun _ _ => True) s := by
  induction l generalizing s blocks with
  | nil => exact ⟨blocks, hs⟩
  | cons i l ih =>
    obtain ⟨hi, hl⟩ := nodup_cons.1 hl
    have hslab := hs.slab i
    have hblocks := hempty i mem_cons_self
    rw [hblocks] at hslab
    rw [forEach_cons, wp_bind, KernelHeap.onSlab, wp_zoom]
    refine wp_mono hslab.init_wp (fun _ t ht => ?_) fun _ _ _ => trivial
    obtain ⟨bs, hinv, hdrawn, hsize⟩ := ht
    rw [← hblocks] at hdrawn
    have hnext := hs.setSlabHeap hinv hdrawn (hsize.trans (hs.size_eq i))
    rw [Function.update_eq_self_iff.2 rfl] at hnext
    refine ih hl hnext fun j hj => ?_
    rw [update_of_ne (ne_of_mem_of_not_mem hj hi)]
    exact hempty j (mem_cons_of_mem i hj)

/-- A heap that has been started. -/
theorem HeapInv.init {h₀ : H} (hinit : KernelHeap.init A (KernelHeap.new lo hi h₀) = .ok () s) :
    ∃ cuts blocks, HeapInv A s [] cuts blocks := by
  have hnew : Layered A (KernelHeap.new lo hi h₀) (fun _ => []) fun _ => [] :=
    ⟨rfl, rfl, fun _ => rfl, fun i => SlabInv.empty i.bytes_dvd h₀, fun _ _ _ _ hb => absurd hb not_mem_nil⟩
  have hwp := hnew.init_wp (nodup_finRange _) fun _ _ => rfl
  obtain ⟨blocks, hs⟩ := (wp_of_ok hinit).1 hwp
  exact ⟨fun _ => [], blocks, hs, forall_mem_nil _, nodup_nil⟩

/-! ## Runs -/

/-- A heap and the allocations its callers hold. -/
structure HeapSystem (H : Type) where
  heap : KernelHeap H
  live : List Allocation

/-- The calls. -/
inductive HeapCall where
  | alloc (layout : Layout)
  | free (ptr : ℕ) (layout : Layout)

/-- The linked list heap can still serve the layout, or a block. -/
def Serves (A : Allocator H lo hi) (layout : Layout) (h : H) : Prop :=
  A.alloc layout h ≠ none ∨ A.alloc SlabBlock.layout h ≠ none

namespace HeapCall
variable (A : Allocator H lo hi)

/-- The state after a call, if it did not fault. -/
def step : HeapCall → HeapSystem H → Option (HeapSystem H)
  | alloc layout, s =>
    match KernelHeap.alloc A layout s.heap with
    | .ok ptr heap => some ⟨heap, ⟨ptr, layout⟩ :: s.live⟩
    | .err _ heap => some ⟨heap, s.live⟩
    | .fault _ => none
  | free ptr layout, s =>
    match KernelHeap.free A ptr layout s.heap with
    | .ok () heap => some ⟨heap, s.live.erase ⟨ptr, layout⟩⟩
    | .err _ heap => some ⟨heap, s.live⟩
    | .fault _ => none

/-- A `free` matches a live allocation. -/
def Legal : HeapCall → HeapSystem H → Prop
  | alloc _, _ => True
  | free ptr layout, s => ⟨ptr, layout⟩ ∈ s.live

/-- **The contract**: `alloc` returns an aligned pointer, and fails only for a layout of size zero or if
the linked list heap cannot serve; `free` succeeds. -/
def Sound : HeapCall → HeapSystem H → Prop
  | alloc layout, s => (KernelHeap.alloc A layout).wp (fun ptr _ => layout.align ∣ ptr)
    (fun _ _ => layout.size = 0 ∨ ¬ Serves A layout s.heap.linkedHeap) s.heap
  | free ptr layout, s => (KernelHeap.free A ptr layout).wp (fun _ _ => True) (fun _ _ => False) s.heap

/-- The calls for which it holds: a layout that can be served can be allocated where it is sent, and what
is freed does not end with the heap. -/
def Proper : HeapCall → HeapSystem H → Prop
  | alloc layout, s => 0 < layout.size → Serves A layout s.heap.linkedHeap → s.heap.CanAlloc A layout
  | free ptr layout, s => ptr + layout.size ≤ s.heap.end_
end HeapCall

section Runs
variable {s : HeapSystem H}

/-- **Which calls keep the contract.** -/
theorem HeapInv.sound_iff_proper (hs : HeapInv A s.heap s.live cuts blocks) (hhi : hi ≤ 2 ^ 64) (c : HeapCall)
    (hlegal : c.Legal s) : c.Sound A s ↔ c.Proper A s := by
  cases c with
  | alloc layout =>
    have hwp := hs.alloc_wp hhi layout
    rw [HeapCall.Sound, HeapCall.Proper]
    cases hrun : KernelHeap.alloc A layout s.heap with
    | ok ptr heap =>
      obtain ⟨-, halign, hcan⟩ := (wp_of_ok hrun).1 hwp
      rw [wp_of_ok hrun]
      exact iff_of_true halign fun _ _ => hcan
    | err e heap =>
      obtain ⟨-, hcannot⟩ := (wp_of_err hrun).1 hwp
      rw [wp_of_err hrun]
      constructor
      · rintro (hzero | hserves) hpos
        · exact absurd hzero hpos.ne'
        · exact fun h => absurd h hserves
      · intro hproper
        rcases eq_zero_or_pos layout.size with hzero | hpos
        · exact .inl hzero
        · exact .inr fun hserves => hcannot.elim hpos.ne' fun hnot => hnot (hproper hpos hserves)
    | fault f =>
      unfold Prog.wp at hwp
      rw [hrun] at hwp
      exact hwp.elim
  | free ptr layout =>
    constructor
    · intro hsound
      by_contra hend
      exact (wp_of_err (KernelHeap.free_of_lt (Nat.lt_of_not_le hend))).1 hsound
    · intro hend
      exact wp_mono (hs.free_wp hhi hlegal hend) (fun _ _ _ => trivial) fun _ _ => False.elim

/-- Every call keeps the invariant, sound or not. -/
theorem HeapInv.step (hs : HeapInv A s.heap s.live cuts blocks) (hhi : hi ≤ 2 ^ 64) (c : HeapCall)
    (hlegal : c.Legal s) {s' : HeapSystem H} (hstep : s' ∈ c.step A s) :
    ∃ cuts' blocks', HeapInv A s'.heap s'.live cuts' blocks' := by
  cases c with
  | alloc layout =>
    have hwp := hs.alloc_wp hhi layout
    unfold Prog.wp at hwp
    rw [HeapCall.step] at hstep
    cases hrun : KernelHeap.alloc A layout s.heap with
    | ok ptr heap =>
      rw [hrun] at hwp hstep
      cases hstep
      exact hwp.1
    | err e heap =>
      rw [hrun] at hwp hstep
      cases hstep
      exact hwp.1
    | fault f =>
      rw [hrun] at hwp
      exact hwp.elim
  | free ptr layout =>
    rw [HeapCall.step] at hstep
    by_cases hend : ptr + layout.size ≤ s.heap.end_
    · obtain ⟨u, heap, hrun, hinv⟩ := wp_false_iff.1 (hs.free_wp hhi hlegal hend)
      rw [hrun] at hstep
      cases hstep
      exact hinv
    · rw [KernelHeap.free_of_lt (Nat.lt_of_not_le hend)] at hstep
      cases hstep
      exact ⟨cuts, blocks, hs⟩

/-- **The contract of the kernel heap holds exactly along proper runs.** -/
theorem heapSound_iff {h₀ : H} {heap : KernelHeap H} {calls : List HeapCall} (hhi : hi ≤ 2 ^ 64)
    (hinit : KernelHeap.init A (KernelHeap.new lo hi h₀) = .ok () heap)
    (hlegal : Along (HeapCall.step A) HeapCall.Legal calls ⟨heap, []⟩) :
    Along (HeapCall.step A) (HeapCall.Sound A) calls ⟨heap, []⟩ ↔
      Along (HeapCall.step A) (HeapCall.Proper A) calls ⟨heap, []⟩ := by
  have hstart : ∃ cuts blocks, HeapInv A heap [] cuts blocks := HeapInv.init hinit
  constructor
  · intro hsound
    refine along_of_invariant (I := fun s => ∃ cuts blocks, HeapInv A s.heap s.live cuts blocks) ?_
      hstart (hlegal.and hsound)
    rintro c s ⟨cuts, blocks, hs⟩ ⟨hc, hsound⟩
    exact ⟨(hs.sound_iff_proper hhi c hc).1 hsound, fun s' => hs.step hhi c hc⟩
  · intro hproper
    refine along_of_invariant (I := fun s => ∃ cuts blocks, HeapInv A s.heap s.live cuts blocks) ?_
      hstart (hlegal.and hproper)
    rintro c s ⟨cuts, blocks, hs⟩ ⟨hc, hproper⟩
    exact ⟨(hs.sound_iff_proper hhi c hc).2 hproper, fun s' => hs.step hhi c hc⟩
end Runs

/-- One page, in the hands of an allocator that serves from its start to its end. -/
def smallBacking : Allocator (Bump 4096 8192) 4096 8192 := Bump.allocator 4096 8192

/-- The kernel heap over one page. -/
def smallHeap : KernelHeap (Bump 4096 8192) :=
  (KernelHeap.init smallBacking (KernelHeap.new 4096 8192 (Bump.empty 4096 8192))).state?.getD
    (KernelHeap.new 4096 8192 (Bump.empty 4096 8192))

theorem smallHeap_init :
    KernelHeap.init smallBacking (KernelHeap.new 4096 8192 (Bump.empty 4096 8192)) = .ok () smallHeap := rfl

/-- Four bytes. -/
def fourBytes : Layout := Layout.ofPow 4 2

/-- Four bytes, aligned like eight. -/
def wordAligned : Layout := Layout.ofPow 4 3

/-- The size of a block. -/
def kibibyte : Layout := Layout.ofPow 1024 3

theorem heapSound_smallHeap :
    Along (HeapCall.step smallBacking) (HeapCall.Sound smallBacking) [.alloc fourBytes, .free 4144 fourBytes]
      ⟨smallHeap, []⟩ := by
  have hlegal : Along (HeapCall.step smallBacking) HeapCall.Legal [.alloc fourBytes, .free 4144 fourBytes]
      ⟨smallHeap, []⟩ := by
    refine ⟨trivial, fun s hs => ⟨?_, fun _ _ => trivial⟩⟩
    cases Option.mem_unique hs rfl
    exact mem_cons_self
  refine (heapSound_iff (by decide) smallHeap_init hlegal).2
    ⟨fun _ _ => ⟨by decide, .inr (Option.some_ne_none _)⟩, fun s hs => ⟨?_, fun _ _ => trivial⟩⟩
  cases Option.mem_unique hs rfl
  show 4144 + 4 ≤ 8191
  decide

theorem not_heapSound_smallHeap :
    (Along (HeapCall.step smallBacking) HeapCall.Legal [.alloc wordAligned] ⟨smallHeap, []⟩ ∧
      ¬ Along (HeapCall.step smallBacking) (HeapCall.Sound smallBacking) [.alloc wordAligned] ⟨smallHeap, []⟩) ∧
    Along (HeapCall.step smallBacking) HeapCall.Legal [.alloc kibibyte, .free 7168 kibibyte] ⟨smallHeap, []⟩ ∧
      ¬ Along (HeapCall.step smallBacking) (HeapCall.Sound smallBacking) [.alloc kibibyte, .free 7168 kibibyte]
        ⟨smallHeap, []⟩ := by
  refine ⟨⟨⟨trivial, fun _ _ => trivial⟩, fun hsound => ?_⟩,
    ⟨trivial, fun s hs => ⟨?_, fun _ _ => trivial⟩⟩, fun hsound => ?_⟩
  · obtain ⟨s', hrun⟩ : ∃ s', KernelHeap.alloc smallBacking wordAligned smallHeap =
      .err (.invalidAllocAlign 8 4) s' := ⟨_, rfl⟩
    rcases (wp_of_err hrun).1 hsound.1 with hzero | hserves
    · exact absurd hzero (by decide)
    · exact hserves (.inl (Option.some_ne_none _))
  · cases Option.mem_unique hs rfl
    exact mem_cons_self
  · have hfree := (hsound.2 _ rfl).1
    exact (wp_of_err (KernelHeap.free_of_lt (by decide))).1 hfree
end WasabiOS
