import WasabiOS.Wfs.Error

/-!
# Wfs/BlockAllocator — the allocator of device blocks

The allocator keeps the free blocks as a list of groups.  `allocateGroup` takes from the group that
fits best, `allocate` asks for groups whose sizes are powers of two, `freeGroup` walks the list to the
place of the freed group.  `write` stores the list in blocks it takes from that same list, chained by
their `next` pointers, and `load` follows the chain.

Assertions are those of a build with debug assertions: an inconsistent list is a panic.
-/

open Machinery Prog
namespace WasabiOS
open BlockGroup

/-- A list of groups, as `allocate` hands it out. -/
structure BlockGroupList where
  groups : List BlockGroup
  deriving DecidableEq, Repr

namespace BlockGroupList

def blockCount (l : BlockGroupList) : ℕ := (l.groups.map count).sum

/-- `block_iter`: the blocks of the groups, in order. -/
def blockIter (l : BlockGroupList) : Checked (List LBA) := do
  let groups ← l.groups.mapM fun g => (List.range g.count).mapM g.start.add
  return groups.flatten
end BlockGroupList

structure BlockAllocator where
  /-- Ranges of blocks that are currently unused -/
  free : List BlockGroup
  /-- The first block of the on disk structure that represents this allocators data -/
  onDisk : Option (DevicePointer .freeBlockGroups)
  /-- all blocks invovled in storing this allocator data -/
  selfOnDisk : List LBA
  /-- `true` if this is different from the on device version -/
  dirty : Bool
  deriving DecidableEq, Repr

namespace BlockAllocator
variable {ε : Type}

def CALC_ALLOC_SIZE_TRY_COUNT : ℕ := 10

/-- The windows check of `check_consistent`. -/
def groupsConsistent : List BlockGroup → Checked Bool
  | first :: second :: rest => do
    if (← first.start.add first.count) < second.start then groupsConsistent (second :: rest)
    else return false
  | _ => return true

/-- Check that the internal assumptions of this data structure hold: free ranges are sorted by their
start LBA, don't overlap, and 2 ranges always have at least 1 LBA between them that is in neither -/
def checkConsistent (a : BlockAllocator) : Checked Bool := groupsConsistent a.free

/-- `debug_assert!(self.check_consistent().is_ok())` -/
def assertConsistent : Prog BlockAllocator ε Unit := do
  assert (← lift (← Prog.get).checkConsistent)

/-- `position(|group| group.contains(lba))` -/
def findGroup (lba : LBA) : List BlockGroup → Checked (Option ℕ)
  | [] => return none
  | g :: gs => do
    if ← g.contains lba then return some 0
    else return (← findGroup lba gs).map (· + 1)

/-- The free list without the block `lba` of its group number `i`. -/
def markUsedAt (lba : LBA) (free : List BlockGroup) (i : ℕ) (group : BlockGroup) : Checked (List BlockGroup) := do
  if lba = group.start then
    if group.count = 1 then return free.eraseIdx i
    let start ← group.start.add 1
    return free.set i (← withCount start (group.count - 1))
  let last ← group.endLba
  if lba = last then
    return free.set i (← withCount group.start (group.count - 1))
  let left ← withCount group.start (← lba.dist group.start)
  let right ← BlockGroup.new (← lba.add 1) last
  return (free.set i left).insertIdx (i + 1) right

def markUsed (lba : LBA) : Prog BlockAllocator Unit Unit := do
  let a ← Prog.get
  match ← lift (findGroup lba a.free) with
  | none => Prog.throw ()
  | some i =>
    let group ← expect a.free[i]?
    let free ← lift (markUsedAt lba a.free i group)
    Prog.put { a with free }
    assertConsistent

/-- Run `mark_used` on every block, which must succeed. -/
def markAllUsed : List LBA → BlockAllocator → Checked BlockAllocator
  | [], a => return a
  | lba :: rest, a =>
    match markUsed lba a with
    | .ok _ a => markAllUsed rest a
    | .err _ _ => .error .panic
    | .fault f => .error f

/-- Creates a new [BlockAllocator] that is free, except for `initial_usage`. -/
def empty (initialUsage : List LBA) (maxLba : LBA) : Checked BlockAllocator := do
  let group ← withCount LBA.ZERO maxLba.get
  markAllUsed initialUsage { free := [group], onDisk := none, selfOnDisk := [], dirty := true }

/-- The scan of `allocate_group`: the first of the groups with the smallest remainder, from index
`i` on, against the best one so far. -/
def bestGroup (size : ℕ) : List BlockGroup → ℕ → Option (ℕ × ℕ) → Option (ℕ × ℕ)
  | [], _, best => best
  | g :: gs, i, best =>
    if g.count < size then bestGroup size gs (i + 1) best
    else if best.all fun b => g.count - size < b.2 then
      bestGroup size gs (i + 1) (some (i, g.count - size))
    else bestGroup size gs (i + 1) best

/-- Allocate a contigious group -/
def allocateGroup (size : ℕ) : Prog BlockAllocator FsError BlockGroup := do
  assert (1 ≤ size)
  let a ← Prog.get
  match bestGroup size a.free 0 none with
  | none => Prog.throw (.noConsecutiveFreeBlocks size)
  | some (i, bestRem) =>
    let best ← expect a.free[i]?
    if bestRem = 0 then
      Prog.put { a with free := a.free.eraseIdx i, dirty := true }
      return best
    -- the front of the group is handed out, its tail stays free
    let result ← lift (withCount best.start size)
    let start ← lift (best.start.add size)
    let rest ← lift (withCount start bestRem)
    Prog.put { a with free := a.free.set i rest, dirty := true }
    assertConsistent
    return result

/-- The loop of `free_group`: a group past the end of the list falls out of it. -/
def insertFreed (freed : BlockGroup) : List BlockGroup → Checked (List BlockGroup)
  | [] => return []
  | current :: rest => do
    if current.start > freed.start then return freed :: current :: rest
    let last ← current.endLba
    if (← last.add 1) = freed.start then
      return (← withCount current.start (current.count + freed.count)) :: rest
    if freed.start > last then return current :: (← insertFreed freed rest)
    else .error .panic

def freeGroup (freed : BlockGroup) : Prog BlockAllocator ε Unit := do
  let a ← Prog.get
  let free ← lift (insertFreed freed a.free)
  Prog.put { a with free, dirty := true }
  assertConsistent

/-- `free`: every group of the list. -/
def freeGroups : List BlockGroup → Prog BlockAllocator ε Unit
  | [] => return ()
  | g :: gs => do
    freeGroup g
    freeGroups gs

def freeList (list : BlockGroupList) : Prog BlockAllocator ε Unit := freeGroups list.groups

/-- The loop of `allocate`.  It halves `groupSize` or takes a group in every round, so `count`
rounds and one for each bit of a `u64` are enough. -/
def allocateLoop (count : ℕ) : (fuel : ℕ) → (groups : List BlockGroup) → (remaining groupSize : ℕ) →
      Prog BlockAllocator FsError BlockGroupList
  | 0, _, _, _ => crash .diverge
  | fuel + 1, groups, remaining, groupSize =>
    if remaining = 0 then return ⟨groups⟩
    else if groupSize = 0 then do
      freeGroups groups
      Prog.throw (.blockDeviceFull count)
    else if remaining > groupSize then
      allocateLoop count fuel groups remaining (groupSize / 2)
    else do
      -- a group of this size, or else smaller ones
      match ← attempt (allocateGroup groupSize) with
      | .error _ => allocateLoop count fuel groups remaining (groupSize / 2)
      | .ok group =>
        assert (groupSize ≤ remaining)
        allocateLoop count fuel (groups ++ [group]) (remaining - groupSize) groupSize

/-- Allocate `count` [LBA]s -/
def allocate (count : ℕ) : Prog BlockAllocator FsError BlockGroupList := do
  assert (1 ≤ count)
  let list ← allocateLoop count (count + 66) [] count (2 ^ Nat.log2 count)
  assert (list.blockCount = count)
  Prog.modify fun a => { a with dirty := true }
  return list

def allocateBlock : Prog BlockAllocator FsError LBA := do
  return (← allocateGroup 1).start

def freeBlock (block : LBA) : Prog BlockAllocator ε Unit := freeGroup (.single block)

/-- `free_block` on every block. -/
def freeBlocks : List LBA → Prog BlockAllocator ε Unit
  | [] => return ()
  | b :: bs => do
    freeBlock b
    freeBlocks bs

/-! ## On the device -/

section Device
variable {D : Type} [BlockDevice D Block]

/-- `chunks(n)`. -/
def chunks {α : Type} (n : ℕ) (l : List α) : List (List α) :=
  (List.range (countsRequiredFor n l.length)).map fun i => (l.drop (i * n)).take n

/-- The retry loop of `write`: `tries` more rounds may miss. -/
def allocateForSelf (blocksRequired : ℕ) : (tries freeGroupCount : ℕ) → Prog BlockAllocator FsError BlockGroupList
  | tries, freeGroupCount => do
    let onDiskBlocks ← allocate blocksRequired
    let new ← Prog.get
    if onDiskBlocks.blockCount ≥ countsRequiredFor BLOCK_RANGES_COUNT_PER_BLOCK new.free.length then
      return onDiskBlocks
    assert (freeGroupCount < new.free.length)
    freeList onDiskBlocks
    match tries with
    | 0 => Prog.throw .writeAllocatorFreeList
    | tries + 1 => allocateForSelf blocksRequired tries new.free.length

/-- Write the free list, one chunk a block, and then the blocks that are left over as empty ones. -/
def writeChunks : List (List BlockGroup) → List LBA → Prog D FsError Unit
  | _ :: _, [] => Prog.panic
  | chunk :: chunks, lba :: rest => do
    mapErr mapDeviceError (BlockDevice.writeBlock lba (.freeBlockGroups
      { free := StaticVec.new.extend chunk, next := rest.head?.map DevicePointer.mk }))
    writeChunks chunks rest
  | [], lba :: rest => do
    mapErr mapDeviceError (BlockDevice.writeBlock lba (.freeBlockGroups
      { free := StaticVec.new, next := rest.head?.map DevicePointer.mk }))
    writeChunks [] rest
  | [], [] => return ()

/-- The blocks of the previous list are freed and blocks for the new list allocated, on a copy. -/
def prepareWrite : Prog BlockAllocator FsError BlockGroupList := do
  let self ← Prog.get
  Prog.put { self with selfOnDisk := [], onDisk := none }
  freeBlocks self.selfOnDisk
  let new ← Prog.get
  let freeGroupCount := max new.free.length 1
  allocateForSelf (countsRequiredFor BLOCK_RANGES_COUNT_PER_BLOCK freeGroupCount)
    CALC_ALLOC_SIZE_TRY_COUNT freeGroupCount

def write : Prog (BlockAllocator × D) FsError (DevicePointer .freeBlockGroups) := do
  zoom Prod.fst (fun a s => (a, s.2)) assertConsistent
  let (self, _) ← Prog.get
  -- the copy is only stored at the end: an error leaves the allocator as it was
  match prepareWrite self with
  | .fault f => crash f
  | .err e _ => Prog.throw e
  | .ok onDiskBlocks new =>
    let blocks ← lift onDiskBlocks.blockIter
    let firstBlock ← expect blocks.head?
    zoom Prod.snd (fun d s => (s.1, d)) (writeChunks (chunks BLOCK_RANGES_COUNT_PER_BLOCK new.free) blocks)
    Prog.modify fun s => ({ new with dirty := false }, s.2)
    return ⟨firstBlock⟩

/-- Follow the chain of free list blocks. -/
def loadChain : (fuel : ℕ) → Option (DevicePointer .freeBlockGroups) → Prog D DeviceError (List BlockGroup × List LBA)
  | _, none => return ([], [])
  | 0, some _ => crash .diverge
  | fuel + 1, some block => do
    let data : FreeBlockGroups ← readPointer block
    let (free, selfOnDisk) ← loadChain fuel data.next
    return (data.free.toList ++ free, block.lba :: selfOnDisk)

def load (freeBlocks : DevicePointer .freeBlockGroups) : Prog D DeviceError BlockAllocator := do
  let (free, selfOnDisk) ← loadChain LBA.addressCount (some freeBlocks)
  let blockAllocator := { free, onDisk := some freeBlocks, selfOnDisk, dirty := false : BlockAllocator }
  assert (← lift blockAllocator.checkConsistent)
  return blockAllocator

/-- Check that allocator state matches the on device data structures: not implemented beyond the
allocator's own consistency. -/
def checkMatchesDevice (a : BlockAllocator) : Checked Bool :=
  if a.dirty then return false else a.checkConsistent
end Device
end BlockAllocator
end WasabiOS
