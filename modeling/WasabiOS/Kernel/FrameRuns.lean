import WasabiOS.Kernel.FrameAllocator
import WasabiOS.Kernel.PageRuns

/-!
# Kernel/FrameRuns — no address is lost

The calls of the frame allocator have the same effects as those of the page allocator (`PhysCall.effects`).
So for both allocators the free addresses are the initial ones without those held **exactly if** no call
loses an address (`conserved_runs_iff`).  Calls do lose addresses: an allocation that finds no aligned
entry takes the padding in front of it as well, and nothing gives the padding back.
-/

open Machinery Prog
namespace WasabiOS
open MemBlock List Run
variable {S : PageSize}

/-- A frame as a block, if there is one. -/
def frameBlocks : Option (PhysFrame S) → List MemBlock
  | some frame => [frame.block]
  | none => []

/-- The frames of a range as blocks. -/
def PhysFrameRangeInclusive.blocks (r : PhysFrameRangeInclusive S) : List MemBlock := consecutive S r.start.start.toNat
    ((r.end_.start.toNat - r.start.start.toNat) / S.SIZE.toNat + 1)

/-- The frames of a range as blocks, if there is one. -/
def frameRangeBlocks : Option (PhysFrameRangeInclusive S) → List MemBlock
  | some r => r.blocks
  | none => []

/-- A call on the frame allocator. -/
inductive PhysCall where
  | alloc (S : PageSize)
  | allocInRange (S : PageSize) (range : RegionRequest) (proper : ∀ r ∈ range.regions, r.Proper)
  | allocRange (S : PageSize) (count : UInt64)
  | free {S : PageSize} (frame : PhysFrame S)
  | freeAll {S : PageSize} (frames : List (PhysFrame S))

namespace PhysCall

/-- The call, with the blocks it hands out. -/
def run : PhysCall → Prog PhysAllocator Empty (List MemBlock)
  | .alloc S => do return frameBlocks (← PhysAllocator.alloc S)
  | .allocInRange S range _ => do return frameBlocks (← PhysAllocator.allocInRange S range)
  | .allocRange S count => do return frameRangeBlocks (← PhysAllocator.allocRange S count)
  | .free frame => do
    PhysAllocator.free frame
    return []
  | .freeAll frames => do
    PhysAllocator.freeAll frames
    return []

/-- The blocks the call gives back. -/
def freed : PhysCall → List MemBlock
  | .free frame => [frame.block]
  | .freeAll frames => frames.map Aligned.block
  | _ => []

/-- **The call loses no address**: an allocation that comes to be served from the front of an entry finds
one that starts aligned. -/
def Lossless : PhysCall → PhysAllocator → Prop
  | .alloc S, a => a.memoryRanges.Unpadded S.SIZE S.SIZE .any
  | .allocInRange S range _, a => a.memoryRanges.Unpadded S.SIZE S.SIZE range
  | .allocRange S count, a =>
    ∀ size, U64.mul S.SIZE count = .ok size → a.memoryRanges.Unpadded size S.SIZE .any
  | _, _ => True
end PhysCall

namespace PhysAllocator
variable {a a' : PhysAllocator} {count : UInt64} {frame : PhysFrame S} {α : Type} {size : UInt64}

theorem wlp_onRanges {op : RangeSet 256 → Checked (α × RangeSet 256)}
    {Q : α → PhysAllocator → Prop} {E : Empty → PhysAllocator → Prop} :
    (onRanges op).wlp Q E a ↔ ∀ x v, op a.memoryRanges = .ok (x, v) → Q x ⟨v⟩ := by
  rw [onRanges, wlp_zoom, wlp_stateful]

/-- **Bytes allocated** and covered with blocks. -/
theorem allocatePrefer_wlp {align : UInt64} {request : RegionRequest}
    {build : Option UInt64 → Checked (Option α)} {blocks : Option α → List MemBlock}
    (ha : RangeSet.Canonical a.memoryRanges.entries) (hrequest : ∀ r ∈ request.regions, r.Proper)
    (hnone : build none = .ok none) (hblocks : blocks none = [])
    (hbuild : ∀ p x, build (some p) = .ok x → MemBlock.Covers (blocks x) p.toNat (p.toNat + size.toNat)) :
    (onRanges (·.allocatePrefer size align request) >>= fun o => lift (build o)).wlp
      (fun x a' => MemBlock.HandsOut a.memoryRanges (a.memoryRanges.Unpadded size align request) (blocks x)
        a'.memoryRanges)
      (fun _ _ => False) a := by
  rw [wlp_bind, wlp_onRanges]
  intro o v halloc
  rw [wlp_lift]
  intro x hx
  rcases allocatePrefer_handsOut ha hrequest halloc with ⟨rfl, rfl, hunpadded⟩ | ⟨p, rfl, hout⟩
  · cases hnone.symm.trans hx
    rw [hblocks]
    exact handsOut_nil ha hunpadded
  · exact hout (blocks x) (hbuild p x hx)

theorem frameAt_eq_ok {p : UInt64} {o : Option (PhysFrame S)} (h : frameAt S (some p) = .ok o) :
    ∃ frame, o = some frame ∧ frame.start = p := by
  obtain ⟨addr, hnew, h⟩ := bind_eq_ok.1 h
  obtain ⟨frame, hframe, h⟩ := bind_eq_ok.1 h
  cases h
  refine ⟨frame, rfl, ?_⟩
  rw [Aligned.start, Aligned.fromStartAddress_eq_ok hframe]
  exact MemAddr.new_eq_ok hnew

theorem allocInRange_wlp {range : RegionRequest} (ha : RangeSet.Canonical a.memoryRanges.entries)
    (hrange : ∀ r ∈ range.regions, r.Proper) :
    (allocInRange S range).wlp
      (fun o a' => MemBlock.HandsOut a.memoryRanges (a.memoryRanges.Unpadded S.SIZE S.SIZE range)
        (frameBlocks o) a'.memoryRanges)
      (fun _ _ => False) a := by
  refine allocatePrefer_wlp ha hrange rfl rfl fun p o ho => ?_
  obtain ⟨frame, rfl, rfl⟩ := frameAt_eq_ok ho
  exact frame.covers_block

theorem frameRange_covers {o : Option (PhysFrameRangeInclusive S)} (hsize : U64.mul S.SIZE count = .ok size)
    (h : frameRange count (some frame) = .ok o) :
    MemBlock.Covers (frameRangeBlocks o) frame.start.toNat (frame.start.toNat + size.toNat) := by
  obtain ⟨n, hn, h⟩ := bind_eq_ok.1 h
  obtain ⟨last, hlast, h⟩ := bind_eq_ok.1 h
  cases h
  have hlen : (last.start.toNat - frame.start.toNat) / S.SIZE.toNat + 1 = count.toNat := by
    rw [Aligned.add_eq_ok hlast, Nat.add_sub_cancel_left, Nat.mul_div_cancel _ S.SIZE_pos]
    have hsub := U64.sub_eq_ok.1 hn
    have hone : (1 : UInt64).toNat = 1 := rfl
    omega
  rw [frameRangeBlocks, PhysFrameRangeInclusive.blocks, hlen, U64.mul_eq_ok.1 hsize, mul_comm]
  exact covers_consecutive frame.block_aligned

section
variable (ha : RangeSet.Canonical a.memoryRanges.entries)
include ha

theorem allocRange_wlp : (allocRange S count).wlp
      (fun o a' => MemBlock.HandsOut a.memoryRanges (PhysCall.Lossless (.allocRange S count) a)
        (frameRangeBlocks o) a'.memoryRanges)
      (fun _ _ => False) a := by
  unfold allocRange
  split
  case isFalse => trivial
  case isTrue =>
    rw [wlp_bind, wlp_lift]
    intro size hsize
    have hlossless : PhysCall.Lossless (.allocRange S count) a ↔
        a.memoryRanges.Unpadded size S.SIZE .any :=
      ⟨fun h => h size hsize, fun h size' hsize' => Except.ok.inj (hsize.symm.trans hsize') ▸ h⟩
    simp only [hlossless]
    refine allocatePrefer_wlp ha (List.forall_mem_nil _) rfl rfl fun p o ho => ?_
    obtain ⟨start, hstart, hrange⟩ := bind_eq_ok.1 ho
    obtain ⟨frame, rfl, rfl⟩ := frameAt_eq_ok hstart
    exact frameRange_covers hsize hrange

theorem free_wlp :
    (free frame).wlp (fun _ a' => MemBlock.GivesBack a.memoryRanges [frame.block] a'.memoryRanges)
      (fun _ _ => False) a := by
  rw [free, wlp_bind, wlp_lift]
  intro last hlast
  obtain ⟨past, hpast, hlast⟩ := bind_eq_ok.1 hlast
  have hrange : (⟨frame.start, last⟩ : Range) = frame.range := by
    refine Range.ext_nat rfl ?_
    rw [frame.range_past, ← U64.add_eq_ok.1 hpast]
    have hsub := U64.sub_eq_ok.1 hlast
    have hone : (1 : UInt64).toNat = 1 := rfl
    change last.toNat + 1 = past.toNat
    omega
  rw [wlp_onRanges, hrange]
  intro _ v hinsert
  obtain ⟨v', hinsert, h⟩ := bind_eq_ok.1 hinsert
  cases h
  exact frame.insert_givesBack ha hinsert

theorem freeAll_wlp {frames : List (PhysFrame S)} :
    (freeAll frames).wlp (fun _ a' => MemBlock.GivesBack a.memoryRanges (frames.map Aligned.block) a'.memoryRanges)
      (fun _ _ => False) a := by
  induction frames generalizing a with
  | nil => exact givesBack_nil ha
  | cons frame frames ih =>
    rw [freeAll, wlp_bind]
    refine wlp_mono (free_wlp ha) (fun _ a' h => ?_) fun _ _ h => h
    exact wlp_mono (ih h.canonical) (fun _ a'' h' => h.append h') fun _ _ h => h
end
end PhysAllocator

namespace PhysCall
open PhysAllocator

/-- **Every call of the frame allocator has an effect.** -/
theorem effects : MemBlock.Effects PhysAllocator.memoryRanges run freed Lossless := by
  intro c a ha
  cases c with
  | alloc S =>
    rw [run, wlp_bind]
    exact wlp_mono (allocInRange_wlp ha fun r hr => absurd hr not_mem_nil)
      (fun _ a' h => .take rfl h) fun _ _ h => h.elim
  | allocInRange S range hrange =>
    rw [run, wlp_bind]
    exact wlp_mono (allocInRange_wlp ha hrange) (fun _ a' h => .take rfl h) fun _ _ h => h.elim
  | allocRange S count =>
    rw [run, wlp_bind]
    exact wlp_mono (allocRange_wlp ha) (fun _ a' h => .take rfl h) fun _ _ h => h.elim
  | free frame =>
    rw [run, wlp_bind]
    exact wlp_mono (free_wlp ha) (fun _ a' h => .give rfl h trivial) fun _ _ h => h.elim
  | freeAll frames =>
    rw [run, wlp_bind]
    exact wlp_mono (freeAll_wlp ha) (fun _ a' h => .give rfl h trivial) fun _ _ h => h.elim
end PhysCall

/-- The frame allocator, as its calls see it. -/
def frameSystem : Pool.System PhysAllocator PhysCall MemBlock :=
  system PhysAllocator.memoryRanges PhysCall.run PhysCall.freed

/-- **Conservation**: in a run of calls that return, the free addresses are always the initial ones
without those of the blocks held exactly if every call is lossless. -/
theorem conserved_runs_iff {a : PageAllocator} {f : PhysAllocator} {pageCalls : List PageCall}
    {frameCalls : List PhysCall} (ha : RangeSet.Canonical a.vaddrs.entries)
    (hf : RangeSet.Canonical f.memoryRanges.entries)
    (hpages : Along (Pool.step pageSystem)
      (fun c s => Pool.Legal pageSystem c s ∧ Pool.Returns pageSystem c s) pageCalls ⟨a, []⟩)
    (hframes : Along (Pool.step frameSystem)
      (fun c s => Pool.Legal frameSystem c s ∧ Pool.Returns frameSystem c s) frameCalls ⟨f, []⟩) :
    (Safe (Pool.step pageSystem) (Pool.Conserved pageSystem addrs a.vaddrs.addrs) pageCalls ⟨a, []⟩ ↔
      Along (Pool.step pageSystem) (fun c s => c.Lossless s.alloc) pageCalls ⟨a, []⟩) ∧
    (Safe (Pool.step frameSystem) (Pool.Conserved frameSystem addrs f.memoryRanges.addrs) frameCalls ⟨f, []⟩ ↔
      Along (Pool.step frameSystem) (fun c s => c.Lossless s.alloc) frameCalls ⟨f, []⟩) :=
  ⟨conserved_iff PageCall.effects ha hpages, conserved_iff PhysCall.effects hf hframes⟩

/-- The frames from the third to the sixteenth are free. -/
def lowFrames : PhysAllocator := ⟨lowPages.vaddrs⟩

theorem lowPages_unpadded : lowPages.vaddrs.Unpadded PageSize.Size4KiB.SIZE PageSize.Size4KiB.SIZE .any := by
  rintro - - - - - ⟨e, he, hfits⟩
  refine ⟨e, he, hfits, ?_⟩
  cases List.mem_singleton.1 he
  decide

theorem conserved_runs_iff_low : Safe (Pool.step pageSystem) (Pool.Conserved pageSystem addrs lowPages.vaddrs.addrs)
        [.allocatePage .Size4KiB] ⟨lowPages, []⟩ ∧
      Safe (Pool.step frameSystem) (Pool.Conserved frameSystem addrs lowFrames.memoryRanges.addrs)
        [.alloc .Size4KiB] ⟨lowFrames, []⟩ := by
  have hpages : Along (Pool.step pageSystem) (fun c s => Pool.Legal pageSystem c s ∧ Pool.Returns pageSystem c s)
      [.allocatePage .Size4KiB] ⟨lowPages, []⟩ :=
    ⟨⟨nil_subperm, rfl⟩, fun _ _ => trivial⟩
  have hframes : Along (Pool.step frameSystem) (fun c s => Pool.Legal frameSystem c s ∧ Pool.Returns frameSystem c s)
      [.alloc .Size4KiB] ⟨lowFrames, []⟩ :=
    ⟨⟨List.nil_subperm, rfl⟩, fun _ _ => trivial⟩
  have hiff := conserved_runs_iff (by decide) (by decide) hpages hframes
  exact ⟨hiff.1.2 ⟨lowPages_unpadded, fun _ _ => trivial⟩, hiff.2.2 ⟨lowPages_unpadded, fun _ _ => trivial⟩⟩

theorem unaligned_vaddrs_le : [(⟨0x2000, 0x3fffff⟩ : Range)].length ≤ 256 := by decide

/-- The addresses from the third page to 4MiB are free. -/
def unalignedPages : PageAllocator := ⟨⟨[⟨0x2000, 0x3fffff⟩], unaligned_vaddrs_le⟩⟩

/-- Allocating a 2MiB page loses the addresses before it. -/
theorem not_conserved_unaligned : Along (Pool.step pageSystem)
      (fun c s => Pool.Legal pageSystem c s ∧ Pool.Returns pageSystem c s)
      [.allocatePage .Size2MiB] ⟨unalignedPages, []⟩ ∧
    ¬ Safe (Pool.step pageSystem) (Pool.Conserved pageSystem addrs unalignedPages.vaddrs.addrs)
      [.allocatePage .Size2MiB] ⟨unalignedPages, []⟩ := by
  refine ⟨⟨⟨nil_subperm, rfl⟩, fun _ _ => trivial⟩, ?_⟩
  rintro ⟨-, s', hs', hconserved⟩
  have hstep : Pool.step pageSystem (.allocatePage .Size2MiB) ⟨unalignedPages, []⟩
      = some ⟨⟨⟨[], Nat.zero_le _⟩⟩, [⟨.Size2MiB, 0x200000⟩]⟩ := rfl
  cases Option.mem_unique hs' hstep
  have hfree : 0x2000 ∈ unalignedPages.vaddrs.addrs :=
    IntervalList.mem_cover.2 ⟨_, mem_cons_self, by decide, by decide⟩
  have hout : 0x2000 ∉ Pool.owned addrs [⟨.Size2MiB, 0x200000⟩] := by
    rw [Pool.owned_cons, Pool.owned_nil, Finset.union_empty, mem_addrs]
    exact fun h => absurd h.1 (by decide)
  have hlost : 0x2000 ∈ (⟨[], Nat.zero_le _⟩ : RangeSet 256).addrs :=
    (Finset.ext_iff.1 hconserved 0x2000).2 (Finset.mem_sdiff.2 ⟨hfree, hout⟩)
  exact Finset.notMem_empty _ hlost
end WasabiOS
