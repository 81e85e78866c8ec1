import WasabiOS.Kernel.SlabBlocks
import WasabiOS.Machinery.Run

/-!
# Kernel/SlabRuns — the slab allocator over whole runs

The callers' side is a list of live allocations: `alloc` adds one, `free` takes one back and is called
with the pointer and the layout of a live one only.  **Over every such run the allocations are safe**
(`slabSafe_of_legal`), whatever the backing allocator does.
-/

open Machinery Prog
namespace WasabiOS
open Option Run
variable {H : Type} {lo hi : ℕ}

/-- A slab allocator and the allocations its callers hold. -/
structure SlabSystem (H : Type) where
  heap : SlabHeap H
  live : List Cut

/-- The calls. -/
inductive SlabCall where
  | alloc (layout : Layout)
  | free (ptr : ℕ) (layout : Layout)

namespace SlabCall
variable (A : Allocator H lo hi)

/-- The state after a call, if it did not fault. -/
def step : SlabCall → SlabSystem H → Option (SlabSystem H)
  | alloc layout, s =>
    match SlabAllocator.allocFrom A layout s.heap with
    | .ok (block, ptr) heap => some ⟨heap, ⟨ptr, layout, block⟩ :: s.live⟩
    | .err _ heap => some ⟨heap, s.live⟩
    | .fault _ => none
  | free ptr layout, s =>
    match SlabAllocator.free A ptr layout s.heap with
    | .ok () heap => some ⟨heap, s.live.eraseP fun e => e.ptr = ptr⟩
    | .err _ heap => some ⟨heap, s.live⟩
    | .fault _ => none

/-- A `free` matches a live allocation. -/
def Legal : SlabCall → SlabSystem H → Prop
  | alloc _, _ => True
  | free ptr layout, s => ∃ e ∈ s.live, e.ptr = ptr ∧ e.layout = layout
end SlabCall

/-- **Safety**: the live allocations do not overlap, are aligned, lie in the block they were cut from and
behind its header, are found in it, and the backing allocator has not got it back; the blocks are linked
both ways. -/
structure SlabSafe (A : Allocator H lo hi) (s : SlabSystem H) : Prop where
  disjoint : s.live.Pairwise fun e e' =>
    e.ptr + s.heap.slab.size ≤ e'.ptr ∨ e'.ptr + s.heap.slab.size ≤ e.ptr
  fits : ∀ e ∈ s.live, s.heap.slab.Fits e.layout
  aligned : ∀ e ∈ s.live, s.heap.slab.size ∣ e.ptr
  inside : ∀ e ∈ s.live, e.block + SlabBlock.SIZE ≤ e.ptr ∧ e.ptr + s.heap.slab.size ≤ e.block + SLAB_BLOCK_SIZE
  found : ∀ e ∈ s.live, ∃ first, s.heap.slab.block = some first ∧
    (SlabAllocator.findBlockContaining e.ptr first : Prog (SlabHeap H) HeapError (Option ℕ)) s.heap =
      .ok (some e.block) s.heap
  linked : ∃ blocks last, blocks.Nodup ∧
    SlabBlock.links.Segment s.heap.slab.memory none s.heap.slab.block blocks last none
  held : ∀ e ∈ s.live, A.live s.heap.allocator e.block = some SlabBlock.layout

variable {A : Allocator H lo hi} {s : SlabHeap H} {live : List Cut} {blocks : List ℕ} {e e' : Cut}

/-- Two allocations do not overlap: in one block they have different slots, and two blocks do not
overlap. -/
theorem SlabInv.disjoint (h : SlabInv A s live blocks) (he : e ∈ live) (he' : e' ∈ live)
    (hne : e.ptr ≠ e'.ptr) : e.ptr + s.slab.size ≤ e'.ptr ∨ e'.ptr + s.slab.size ≤ e.ptr := by
  obtain ⟨hblock, -⟩ := h.cut e he
  obtain ⟨hblock', -⟩ := h.cut e' he'
  obtain ⟨v, hv, hcarved⟩ := h.carved e.block hblock
  by_cases heq : e'.block = e.block
  · obtain ⟨k, -, hslots⟩ := hcarved.slots
    obtain ⟨j, -, hptr⟩ := hslots e he rfl
    obtain ⟨j', -, hptr'⟩ := hslots e' he' heq
    have hstep : ∀ {i i' : ℕ}, i < i' → s.slab.size * i + s.slab.size ≤ s.slab.size * i' :=
      fun hlt => (Nat.mul_succ _ _).symm.trans_le (Nat.mul_le_mul_left _ hlt)
    rcases lt_trichotomy j j' with hlt | rfl | hlt
    · have hle := hstep hlt
      exact .inl (by omega)
    · exact absurd (hptr.trans hptr'.symm) hne
    · have hle := hstep hlt
      exact .inr (by omega)
  · obtain ⟨v', hv', hcarved'⟩ := h.carved e'.block hblock'
    obtain ⟨hfront, hback⟩ := hcarved.inside h.size_pos he rfl
    obtain ⟨hfront', hback'⟩ := hcarved'.inside h.size_pos he' rfl
    have hapart : BlocksApart e.block e'.block := h.apart.forall hblock hblock' (Ne.symm heq)
    rcases hapart with hle | hle
    · exact .inl (by omega)
    · exact .inr (by omega)

/-- **The invariant is safe.** -/
theorem SlabInv.safe (h : SlabInv A s live blocks) (hhi : hi ≤ 2 ^ 64) : SlabSafe A ⟨s, live⟩ := by
  have hcarved : ∀ e ∈ live, ∃ v, s.slab.memory e.block = some v ∧ Carved s.slab.size live e.block v :=
    fun e he => h.carved e.block (h.cut e he).1
  refine ⟨?_, fun e he => (h.cut e he).2, fun e he => ?_, fun e he => ?_, fun e he => ?_, ?_,
    fun e he => h.held e.block (h.cut e he).1⟩
  · exact h.distinct.imp_of_mem fun he he' hne => h.disjoint he he' hne
  · obtain ⟨v, -, hc⟩ := hcarved e he
    exact hc.dvd h.size_pos he rfl
  · obtain ⟨v, -, hc⟩ := hcarved e he
    exact hc.inside h.size_pos he rfl
  · obtain ⟨first, hfirst⟩ := h.exists_first (h.cut e he).1
    exact ⟨first, hfirst, h.findBlockContaining hhi hfirst he⟩
  · obtain ⟨last, hlinked⟩ := h.linked
    exact ⟨blocks, last, h.nodup, hlinked⟩

variable {size : ℕ} {slab : SlabAllocator} {h : H} {heap : SlabHeap H} {calls : List SlabCall}

/-- Every call keeps the invariant. -/
theorem SlabInv.step (hhi : hi ≤ 2 ^ 64) (c : SlabCall) (s : SlabSystem H)
    (hinv : ∃ blocks, SlabInv A s.heap s.live blocks) (hlegal : c.Legal s) :
    ∃ s' ∈ c.step A s, ∃ blocks, SlabInv A s'.heap s'.live blocks := by
  obtain ⟨blocks, hinv⟩ := hinv
  cases c with
  | alloc layout =>
    have hwp := hinv.allocFrom_wp hhi layout
    unfold Prog.wp at hwp
    rw [SlabCall.step]
    cases hrun : SlabAllocator.allocFrom A layout s.heap with
    | ok r heap =>
      rw [hrun] at hwp
      obtain ⟨⟨blocks', hinv', -, -⟩, -, -⟩ := hwp
      exact ⟨_, rfl, blocks', hinv'⟩
    | err e heap =>
      rw [hrun] at hwp
      obtain ⟨⟨blocks', hinv', -, -⟩, -⟩ := hwp
      exact ⟨_, rfl, blocks', hinv'⟩
    | fault f =>
      rw [hrun] at hwp
      exact hwp.elim
  | free ptr layout =>
    obtain ⟨e, he, rfl, rfl⟩ := hlegal
    obtain ⟨u, heap, hrun, blocks', hinv', -, -⟩ := wp_false_iff.1 (hinv.free_wp hhi he)
    refine ⟨⟨heap, s.live.eraseP fun e' => e'.ptr = e.ptr⟩, ?_, blocks', hinv'⟩
    rw [SlabCall.step, hrun]
    rfl

/-- A slab allocator starts without allocations. -/
theorem SlabInv.init (hsize : size ∣ SLAB_BLOCK_SIZE) (hnew : SlabAllocator.new size = .ok slab)
    (hinit : heap ∈ (SlabAllocator.init A ⟨slab, h⟩).state?) : ∃ blocks, SlabInv A heap [] blocks := by
  have hslab : slab = ⟨size, none, fun _ => none⟩ := by
    unfold SlabAllocator.new at hnew
    split at hnew
    case isTrue => exact (Except.ok.inj hnew).symm
    case isFalse => cases hnew
  subst hslab
  obtain ⟨blocks, hinv, -, -⟩ := wp_state (SlabInv.empty hsize h).init_wp hinit
  exact ⟨blocks, hinv⟩

/-- **A slab allocator is safe** over every run of calls that free what is live. -/
theorem slabSafe_of_legal (hhi : hi ≤ 2 ^ 64) (hsize : size ∣ SLAB_BLOCK_SIZE)
    (hnew : SlabAllocator.new size = .ok slab)
    (hinit : heap ∈ (SlabAllocator.init A ⟨slab, h⟩).state?)
    (hlegal : Along (SlabCall.step A) SlabCall.Legal calls ⟨heap, []⟩) :
    Safe (SlabCall.step A) (SlabSafe A) calls ⟨heap, []⟩ := by
  refine (safe_of_along (SlabInv.step hhi) (SlabInv.init hsize hnew hinit) hlegal).mono ?_
  rintro ⟨heap, live⟩ ⟨blocks, hinv⟩
  exact hinv.safe hhi

/-- 64 bytes. -/
def cacheLine : Layout := Layout.ofPow 64 3

/-- A slab allocator of cache lines, started over a page. -/
def cacheLines : SlabHeap (Bump 4096 8192) :=
  ⟨⟨64, some 4096, Function.update (fun _ => none) 4096 (some (SlabBlock.fresh 64 4096))⟩,
    (Bump.empty 4096 8192).grow SlabBlock.layout⟩

theorem slabSafe_cacheLines : Safe (SlabCall.step (Bump.allocator 4096 8192)) (SlabSafe (Bump.allocator 4096 8192))
      [.alloc cacheLine, .alloc cacheLine, .free 4160 cacheLine] ⟨cacheLines, []⟩ := by
  have hnew : SlabAllocator.new 64 = .ok ⟨64, none, fun _ => none⟩ := if_pos (by decide)
  have hinit : cacheLines ∈ (SlabAllocator.init (Bump.allocator 4096 8192)
      ⟨⟨64, none, fun _ => none⟩, Bump.empty 4096 8192⟩).state? := rfl
  refine slabSafe_of_legal (by decide) (by decide) hnew hinit
    ⟨trivial, fun s hs => ⟨trivial, fun t ht => ⟨?_, fun _ _ => trivial⟩⟩⟩
  cases mem_unique hs rfl
  cases mem_unique ht rfl
  exact ⟨_, List.mem_cons_of_mem _ List.mem_cons_self, rfl, rfl⟩
end WasabiOS
