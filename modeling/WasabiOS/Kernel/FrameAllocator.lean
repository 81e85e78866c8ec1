import WasabiOS.Kernel.Paging
import WasabiOS.Shared.RangeSet

/-!
# Kernel/FrameAllocator — the allocator of physical frames

`PhysAllocator` keeps the free physical addresses in a `RangeSet`; the kernel's `FrameAllocator` passes
its calls on to it.  No call returns an error: an allocation that finds nothing returns `none`.
-/

open Machinery Prog
namespace WasabiOS

/-- A wrapper around a RangeSet that allows allocation and deallocation of Physical Frames of any
size -/
structure PhysAllocator where
  memoryRanges : RangeSet 256
  deriving DecidableEq, Repr

/-- An inclusive range of frames. -/
structure PhysFrameRangeInclusive (S : PageSize) where
  /-- The start of the range, inclusive -/
  start : PhysFrame S
  /-- The end of the range, inclusive -/
  end_ : PhysFrame S
  deriving DecidableEq, Repr

namespace PhysAllocator
variable {α : Type} {S : PageSize}

/-- An operation on the free addresses. -/
def onRanges (op : RangeSet 256 → Checked (α × RangeSet 256)) : Prog PhysAllocator Empty α :=
  zoom memoryRanges (fun v _ => ⟨v⟩) (stateful op)

/-- The frame an allocation starts with. -/
def frameAt (S : PageSize) : Option UInt64 → Checked (Option (PhysFrame S))
  | none => return none
  | some s => do return some (← Aligned.fromStartAddress S (← MemAddr.new s))

/-- allocate a new frame within the given range -/
def allocInRange (S : PageSize) (range : RegionRequest) : Prog PhysAllocator Empty (Option (PhysFrame S)) := do
  let allocStart ← onRanges (·.allocatePrefer S.SIZE S.SIZE range)
  lift (frameAt S allocStart)

/-- allocate a  new frame -/
def alloc (S : PageSize) : Prog PhysAllocator Empty (Option (PhysFrame S)) := do
  let allocStart ← onRanges (·.allocate S.SIZE S.SIZE)
  lift (frameAt S allocStart)

/-- The frames from `start` on. -/
def frameRange (count : UInt64) : Option (PhysFrame S) → Checked (Option (PhysFrameRangeInclusive S))
  | none => return none
  | some start => do return some ⟨start, ← start.add (← U64.sub count 1)⟩

/-- allocate a range of contigous frames -/
def allocRange (S : PageSize) (count : UInt64) : Prog PhysAllocator Empty (Option (PhysFrameRangeInclusive S)) :=
  if count ≠ 0 then do
    let size ← lift (U64.mul S.SIZE count)
    let allocStart ← onRanges (·.allocate size S.SIZE)
    lift (do frameRange count (← frameAt S allocStart))
  else Prog.panic

/-- free a frame -/
def free (frame : PhysFrame S) : Prog PhysAllocator Empty Unit := do
  let end_ ← lift (do U64.sub (← U64.add frame.start S.SIZE) 1)
  onRanges fun r => do return ((), ← r.insert ⟨frame.start, end_⟩)

/-- free all frames -/
def freeAll : List (PhysFrame S) → Prog PhysAllocator Empty Unit
  | [] => return ()
  | frame :: frames => do
    free frame
    freeAll frames
end PhysAllocator
end WasabiOS
