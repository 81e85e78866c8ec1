import WasabiOS.Machinery.Allocator
import WasabiOS.Machinery.Linked

/-!
# Kernel/Slab — the slab allocator

A `SlabAllocator` cuts allocations of one size from blocks of `SLAB_BLOCK_SIZE` bytes, which it gets from
another allocator.  A block starts with its header, a `SlabBlock`; the headers form a doubly linked list
and are all the allocator ever reads, so the memory it sees maps addresses to headers.  Following a
pointer that leads to no header is undefined.

Addresses are natural numbers: no block lies so close to the end of the address space that an address
computed from it would wrap.
-/

open Machinery Prog
namespace WasabiOS

/-- The errors of the heap. -/
inductive HeapError where
  | outOfMemory
  | invalidAllocSize (size expected : ℕ)
  | invalidAllocAlign (align expected : ℕ)
  | zeroSizeAllocation
  | ptrNotAllocated (ptr : ℕ)
  | freeFailed (ptr : ℕ)
  deriving DecidableEq, Repr

/-- block size for the slab allocator -/
def SLAB_BLOCK_SIZE : ℕ := 1024

/-- `usize::is_power_of_two` -/
def isPowerOfTwo (n : ℕ) : Bool := 2 ^ n.log2 = n

/-- a block of memory used by slab allocators to allocate smaller blocks.  This struct represents the
header of a block. -/
structure SlabBlock where
  /-- the next block in the linked list -/
  next : Option ℕ
  /-- the previous block in the linked list -/
  prev : Option ℕ
  /-- the start of memory managed by this block -/
  start : ℕ
  /-- the end of memory managed by this block -/
  end_ : ℕ
  /-- the memory used from this block -/
  used : ℕ
  /-- the size of allocations freed from this block -/
  freed : ℕ
  deriving DecidableEq, Repr

namespace SlabBlock

/-- `size_of::<SlabBlock>()` -/
def SIZE : ℕ := 48

/-- the layout of a block -/
def layout : Layout := ⟨SLAB_BLOCK_SIZE, 8, 3, rfl⟩

/-- `block.next = p` -/
def setNext (p : Option ℕ) (b : SlabBlock) : SlabBlock := { b with next := p }

/-- `block.prev = p` -/
def setPrev (p : Option ℕ) (b : SlabBlock) : SlabBlock := { b with prev := p }

/-- `block.used += size` -/
def addUsed (size : ℕ) (b : SlabBlock) : SlabBlock := { b with used := b.used + size }

/-- `block.freed += size` -/
def addFreed (size : ℕ) (b : SlabBlock) : SlabBlock := { b with freed := b.freed + size }

/-- The links between headers. -/
def links : Links ℕ SlabBlock where
  next := next
  prev := prev
  setNext := setNext
  setPrev := setPrev
  next_setNext _ _ := rfl
  prev_setNext _ _ := rfl
  next_setPrev _ _ := rfl
  prev_setPrev _ _ := rfl

/-- The header of a new block. -/
def fresh (size blockStart : ℕ) : SlabBlock where
  next := none
  prev := none
  start := U64.alignUp size (blockStart + SIZE)
  end_ := blockStart + (SLAB_BLOCK_SIZE - 1)
  used := 0
  freed := 0

/-- returns `true` if the `addr` is within this block. -/
def contains (addr : ℕ) (b : SlabBlock) : Bool := b.start ≤ addr && addr < b.start + SLAB_BLOCK_SIZE

/-- returns `true` if the block has no more space for a `size` allocation -/
def isFull (size : ℕ) (b : SlabBlock) : Bool := b.end_ ≤ b.start + b.used + size

/-- returns `true` if all possible allocations of `size` have been freed -/
def isFreed (size : ℕ) (b : SlabBlock) : Bool := b.end_ ≤ b.start + b.freed + size
end SlabBlock

/-- A slab allocator can allocate fixed size blocks of memory -/
structure SlabAllocator where
  /-- Size of the allocations this slab allocator provides -/
  size : ℕ
  /-- The first block for tracking allocations (linked list) -/
  block : Option ℕ
  /-- the headers of the blocks -/
  memory : ℕ → Option SlabBlock

/-- A slab allocator and the allocator it gets its blocks from. -/
structure SlabHeap (H : Type) where
  slab : SlabAllocator
  allocator : H

namespace SlabHeap
variable {H : Type} {ε : Type}

/-- Write a header. -/
def store (p : ℕ) (b : SlabBlock) (s : SlabHeap H) : SlabHeap H :=
  { s with slab := { s.slab with memory := Function.update s.slab.memory p (some b) } }

/-- There is no header any more. -/
def forget (p : ℕ) (s : SlabHeap H) : SlabHeap H :=
  { s with slab := { s.slab with memory := Function.update s.slab.memory p none } }

/-- The first block. -/
def setBlock (p : Option ℕ) (s : SlabHeap H) : SlabHeap H := { s with slab := { s.slab with block := p } }

/-- The underlying allocator, after an operation. -/
def setAllocator (h : H) (s : SlabHeap H) : SlabHeap H := { s with allocator := h }

/-- Follow a pointer. -/
def deref (p : ℕ) : Prog (SlabHeap H) ε SlabBlock := do
  let s ← Prog.get
  match s.slab.memory p with
  | some b => return b
  | none => crash .undefined

/-- Change the header at a pointer. -/
def update (p : ℕ) (f : SlabBlock → SlabBlock) : Prog (SlabHeap H) ε Unit := do
  let b ← deref p
  Prog.modify (store p (f b))

/-- Change the header at a link, if it is one. -/
def updateLink (p : Option ℕ) (f : SlabBlock → SlabBlock) : Prog (SlabHeap H) ε Unit :=
  match p with
  | some p => update p f
  | none => return ()
end SlabHeap

namespace SlabAllocator
open SlabHeap
variable {H : Type} {lo hi : ℕ} {ε : Type}

/-- creates a new slab allocator -/
def new (size : ℕ) : Checked SlabAllocator :=
  if isPowerOfTwo size then .ok ⟨size, none, fun _ => none⟩ else .error .panic

/-- returns `true` if this allocator can allocate memory with the given alignment -/
def canAcceptAlign (align : ℕ) (slab : SlabAllocator) : Bool := align ≤ slab.size

/-- Follow the list from a block to the first one that satisfies `p`.  A list that is longer than there
are addresses does not end. -/
def findBlock (p : SlabBlock → Bool) (block : ℕ) : Prog (SlabHeap H) ε (Option ℕ) := do
  let s ← Prog.get
  lift (SlabBlock.links.walk s.slab.memory p (2 ^ 64) (some block))

/-- tries to find a the block that contains the `ptr`. -/
def findBlockContaining (ptr : ℕ) : ℕ → Prog (SlabHeap H) ε (Option ℕ) := findBlock (SlabBlock.contains ptr)

/-- finds the first block that can still fit `size` -/
def findBlockWithSpace (size : ℕ) : ℕ → Prog (SlabHeap H) ε (Option ℕ) :=
  findBlock fun b => !b.isFull size

variable (A : Allocator H lo hi)

/-- allocates a new block. -/
def newBlock : Prog (SlabHeap H) HeapError ℕ := do
  let s ← Prog.get
  match A.alloc SlabBlock.layout s.allocator with
  | none => Prog.throw .outOfMemory
  | some (blockStart, h) =>
    Prog.modify (setAllocator h)
    Prog.modify (store blockStart (SlabBlock.fresh s.slab.size blockStart))
    return blockStart

/-- initializes the slab allocator -/
def init : Prog (SlabHeap H) HeapError Unit := do
  let block ← newBlock A
  Prog.modify (setBlock (some block))

/-- A new block in front of the others. -/
def pushNewBlock : Prog (SlabHeap H) HeapError ℕ := do
  let blockPtr ← newBlock A
  let s ← Prog.get
  update blockPtr (SlabBlock.setNext s.slab.block)
  updateLink s.slab.block (SlabBlock.setPrev (some blockPtr))
  Prog.modify (setBlock (some blockPtr))
  return blockPtr

/-- returns the first block or creates a new one if none exists -/
def firstBlockOrPush : Prog (SlabHeap H) HeapError ℕ := do
  let s ← Prog.get
  match s.slab.block with
  | some block => return block
  | none => pushNewBlock A

/-- The layouts a slab allocator can serve. -/
def checkLayout (layout : Layout) : Prog (SlabHeap H) HeapError Unit := do
  let s ← Prog.get
  if s.slab.size < layout.size then Prog.throw (.invalidAllocSize layout.size s.slab.size)
  else if !s.slab.canAcceptAlign layout.align then Prog.throw (.invalidAllocAlign layout.align s.slab.size)
  else return ()

/-- allocates `size` bytes from a block -/
def allocIn (block size : ℕ) : Prog (SlabHeap H) HeapError ℕ := do
  let b ← deref block
  if b.isFull size then Prog.throw .outOfMemory
  else if size = 0 then Prog.throw .zeroSizeAllocation
  else
    let start := b.start + b.used
    assert (start + size ≤ b.end_)
    Prog.modify (store block (b.addUsed size))
    assert (U64.alignUp size start = start)
    return start

/-- Allocate from the first block with space from `first` on, or from a new one. -/
def allocAlong (first size : ℕ) : Prog (SlabHeap H) HeapError (ℕ × ℕ) := do
  let block ← match ← findBlockWithSpace size first with
    | some block => pure block
    | none => pushNewBlock A
  return (block, ← allocIn block size)

/-- `alloc`, and the block the allocation is cut from -/
def allocFrom (layout : Layout) : Prog (SlabHeap H) HeapError (ℕ × ℕ) := do
  checkLayout layout
  let s ← Prog.get
  let first ← firstBlockOrPush A
  allocAlong A first s.slab.size

/-- allocate memory for a layout -/
def alloc (layout : Layout) : Prog (SlabHeap H) HeapError ℕ := Prod.snd <$> allocFrom A layout

/-- Take a block out of the list and give it back. -/
def releaseBlock (blockPtr : ℕ) (block : SlabBlock) : Prog (SlabHeap H) HeapError Unit := do
  updateLink block.prev (SlabBlock.setNext block.next)
  updateLink block.next (SlabBlock.setPrev block.prev)
  if block.prev = none then
    Prog.modify (setBlock block.next)
  Prog.modify fun s => (s.forget blockPtr).setAllocator (A.free blockPtr SlabBlock.layout s.allocator)

/-- free a pointer with a given layout -/
def free (ptr : ℕ) (layout : Layout) : Prog (SlabHeap H) HeapError Unit := do
  checkLayout layout
  let s ← Prog.get
  match s.slab.block with
  | none => Prog.throw (.freeFailed ptr)
  | some first =>
    match ← findBlockContaining ptr first with
    | none => Prog.throw (.ptrNotAllocated ptr)
    | some blockPtr =>
      update blockPtr (SlabBlock.addFreed s.slab.size)
      let block ← deref blockPtr
      if block.isFreed s.slab.size then
        releaseBlock A blockPtr block
      else return ()
end SlabAllocator
end WasabiOS
