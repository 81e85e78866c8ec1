import WasabiOS.Kernel.KernelHeap

/-!
# Kernel/EarlyHeap — the heap of the early boot process

A bump allocator that never frees.  The end of an allocation is computed as its last byte and compared as if it were
the first byte behind it: an allocation may reach one byte beyond the heap, and `unused` underflows from then on
(`earlyHeapSafe_iff`).
-/

open Machinery
namespace WasabiOS
open List Run

/-- The size of the early boot kernel heap -/
def EARLY_HEAP_SIZE : ℕ := 4 * 1024

/-- The address of memory that is aligned to a page. -/
structure Aligned4K where
  addr : ℕ
  aligned : 4096 ∣ addr

/-- The early heap: the memory used for it, and its counters. -/
structure EarlyHeap where
  memory : Aligned4K
  /-- The offset of the next free byte -/
  nextOffset : ℕ
  /-- The number of bytes allcoated -/
  allocated : ℕ

namespace EarlyHeap

/-- Allocate memory in the early boot heap.  Sums that overflow are too large for the assertion as well. -/
def alloc (layout : Layout) (h : EarlyHeap) : Checked (ℕ × EarlyHeap) :=
  let alignedOffset := U64.alignUp layout.align h.nextOffset
  if layout.size = 0 then .error .panic
  else if alignedOffset + (layout.size - 1) ≤ EARLY_HEAP_SIZE then
    .ok (h.memory.addr + alignedOffset,
      { h with nextOffset := alignedOffset + layout.size, allocated := (h.allocated + layout.size) % 2 ^ 64 })
  else .error .panic

/-- Returns if a pointer points into the early heap -/
def isInHeap (h : EarlyHeap) (ptr : ℕ) : Bool := h.memory.addr ≤ ptr ∧ ptr ≤ h.memory.addr + (EARLY_HEAP_SIZE - 1)

/-- Return the number of bytes used in the early boot allocator -/
def used (h : EarlyHeap) : ℕ := h.nextOffset

/-- Return the number of unused bytes in the early boot allocator -/
def unused (h : EarlyHeap) : Checked ℕ :=
  if h.used ≤ EARLY_HEAP_SIZE then .ok (EARLY_HEAP_SIZE - h.used) else .error .panic
end EarlyHeap

/-- A layout of at least one byte, aligned to a page at most. -/
structure EarlyLayout extends Layout where
  size_pos : 0 < size
  align_le : align ≤ 4096

theorem EarlyLayout.align_dvd (l : EarlyLayout) : l.align ∣ 4096 := by
  obtain ⟨k, hk⟩ := l.isPowerOfTwo
  have hle : 2 ^ k ≤ 2 ^ 12 := hk ▸ l.align_le
  rw [hk]
  exact pow_dvd_pow 2 ((Nat.pow_le_pow_iff_right (by decide)).1 hle)

/-- The heap and what it has handed out. -/
structure EarlySystem where
  heap : EarlyHeap
  live : List Allocation

namespace EarlySystem

/-- The state after an allocation, if it returned. -/
def step (layout : EarlyLayout) (s : EarlySystem) : Option EarlySystem :=
  match s.heap.alloc layout.toLayout with
  | .ok (ptr, heap) => some ⟨heap, ⟨ptr, layout.toLayout⟩ :: s.live⟩
  | .error _ => none

/-- Two allocations have no byte in common. -/
def Apart (e f : Allocation) : Prop := e.ptr + e.layout.size ≤ f.ptr ∨ f.ptr + f.layout.size ≤ e.ptr

/-- **What the heap has handed out** is aligned, inside the heap and apart, and the counts add up. -/
structure Sound (s : EarlySystem) : Prop where
  aligned : ∀ e ∈ s.live, e.layout.align ∣ e.ptr
  inside : ∀ e ∈ s.live, ∀ p, e.ptr ≤ p → p < e.ptr + e.layout.size → s.heap.isInHeap p
  apart : s.live.Pairwise Apart
  counts : ∃ n, s.heap.unused = .ok n ∧ s.heap.used + n = EARLY_HEAP_SIZE

/-- What keeps the heap sound: no allocation ends right behind the byte after the heap. -/
def Ends (layout : EarlyLayout) (s : EarlySystem) : Prop :=
  U64.alignUp layout.align s.heap.nextOffset + layout.size ≠ EARLY_HEAP_SIZE + 1

/-- Sound, and all that was handed out is below the next offset. -/
structure Inv (s : EarlySystem) : Prop extends Sound s where
  below : ∀ e ∈ s.live, e.ptr + e.layout.size ≤ s.heap.memory.addr + s.heap.nextOffset
  next_le : s.heap.nextOffset ≤ EARLY_HEAP_SIZE

variable {s s' : EarlySystem} {layout : EarlyLayout}

/-- What an allocation that returns does. -/
theorem mem_step : s' ∈ step layout s ↔ ∃ offset, offset = U64.alignUp layout.align s.heap.nextOffset ∧
    offset + (layout.size - 1) ≤ EARLY_HEAP_SIZE ∧
    s' = ⟨{ s.heap with nextOffset := offset + layout.size, allocated := (s.heap.allocated + layout.size) % 2 ^ 64 },
      ⟨s.heap.memory.addr + offset, layout.toLayout⟩ :: s.live⟩ := by
  rw [step, EarlyHeap.alloc, if_neg layout.size_pos.ne']
  by_cases hle : U64.alignUp layout.align s.heap.nextOffset + (layout.size - 1) ≤ EARLY_HEAP_SIZE
  · rw [if_pos hle]
    refine ⟨fun h => ⟨_, rfl, hle, (Option.some.inj h).symm⟩, ?_⟩
    rintro ⟨_, rfl, -, h⟩
    exact congrArg some h.symm
  · rw [if_neg hle]
    refine iff_of_false (by simp) ?_
    rintro ⟨_, rfl, h, -⟩
    exact hle h

/-- An allocation that ends inside the heap keeps it sound. -/
theorem Inv.step (h : Inv s) (hs : s' ∈ step layout s) (hends : Ends layout s) : Inv s' := by
  obtain ⟨offset, hoffset, hle, rfl⟩ := mem_step.1 hs
  have hpos := layout.size_pos
  have hnext : s.heap.nextOffset ≤ offset := hoffset ▸ U64.le_alignUp
  have hend : offset + layout.size ≤ EARLY_HEAP_SIZE := by
    rw [Ends, ← hoffset] at hends
    omega
  refine ⟨⟨?_, ?_, pairwise_cons.2 ⟨fun e he => ?_, h.apart⟩, ?_⟩, ?_, hend⟩
  · refine forall_mem_cons.2 ⟨?_, h.aligned⟩
    exact (Nat.dvd_add (layout.align_dvd.trans s.heap.memory.aligned) (hoffset ▸ U64.dvd_alignUp layout.align_pos))
  · refine forall_mem_cons.2 ⟨fun p hp hlt => ?_, h.inside⟩
    refine decide_eq_true ⟨?_, ?_⟩
    · exact le_self_add.trans hp
    · change p < s.heap.memory.addr + offset + layout.size at hlt
      change p ≤ s.heap.memory.addr + (EARLY_HEAP_SIZE - 1)
      omega
  · have hbelow := h.below e he
    exact .inr (by change _ ≤ s.heap.memory.addr + offset; omega)
  · exact ⟨_, if_pos hend, Nat.add_sub_cancel' hend⟩
  · refine forall_mem_cons.2 ⟨(add_assoc _ _ _).le, fun e he => (h.below e he).trans ?_⟩
    exact Nat.add_le_add_left (hnext.trans le_self_add) _

/-- An allocation that ends there returns, and leaves nothing to subtract from. -/
theorem ends_of_sound (h : ∀ s' ∈ step layout s, Sound s') : Ends layout s := by
  intro hend
  obtain ⟨n, -, hcount⟩ := (h _ (mem_step.2 ⟨_, rfl, by have := layout.size_pos; omega, rfl⟩)).counts
  change U64.alignUp layout.align s.heap.nextOffset + layout.size + n = EARLY_HEAP_SIZE at hcount
  omega

/-- The heap at startup. -/
def start (memory : Aligned4K) : EarlySystem := ⟨⟨memory, 0, 0⟩, []⟩

theorem start_inv (memory : Aligned4K) : Inv (start memory) where
  aligned := forall_mem_nil _
  inside := forall_mem_nil _
  apart := .nil
  counts := ⟨EARLY_HEAP_SIZE, rfl, zero_add _⟩
  below := forall_mem_nil _
  next_le := Nat.zero_le _
end EarlySystem

open EarlySystem in
/-- **A run of the early heap stays sound exactly if no allocation ends one byte behind the heap.** -/
theorem earlyHeapSafe_iff (memory : Aligned4K) (layouts : List EarlyLayout) :
    Along step (fun layout s => ∀ s' ∈ step layout s, Sound s') layouts (start memory) ↔
      Along step Ends layouts (start memory) := by
  refine along_iff_of_invariant (I := Inv) (fun layout s h => ⟨ends_of_sound, fun hends s' hs => ?_⟩)
    (fun layout s h hsound s' hs => h.step hs (ends_of_sound hsound)) (start_inv memory)
  exact (h.step hs hends).toSound

/-- One byte more than the heap has. -/
def wholeHeapAndMore : EarlyLayout where
  toLayout := Layout.ofPow 4097 0
  size_pos := by decide
  align_le := by decide

/-- **4097 bytes are handed out of 4096.** -/
theorem not_earlyHeapSafe : ¬ Along EarlySystem.step (fun layout s => ∀ s' ∈ EarlySystem.step layout s,
    EarlySystem.Sound s') [wholeHeapAndMore] (EarlySystem.start ⟨4096, Nat.dvd_refl 4096⟩) := by
  intro h
  have hsound : EarlySystem.Sound _ := h.1 _ rfl
  obtain ⟨n, hunused, -⟩ := hsound.counts
  cases hunused
end WasabiOS
