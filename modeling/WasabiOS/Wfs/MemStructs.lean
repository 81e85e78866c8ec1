import WasabiOS.Wfs.BlockAllocator

/-!
# Wfs/MemStructs — block lists and file nodes in memory

A file node knows the blocks of its data through a `BlockListAccess`: a list in memory, the head of a
list on the device, or both.  It sits in a lock cell behind an `Arc`, so everybody who holds the file
node sees a change of it; here a file node names its cell by a `CellId`, and the memory that holds the
nodes holds the cells.
-/

open Machinery Prog
namespace WasabiOS

/-! ## Block lists -/

/-- `BlockListInternal` -/
inductive BlockList where
  | single (group : BlockGroup)
  | vec (groups : List BlockGroup)
  deriving DecidableEq, Repr

namespace BlockList

def asSlice : BlockList → List BlockGroup
  | single group => [group]
  | vec groups => groups

def blockCount (l : BlockList) : ℕ := (l.asSlice.map BlockGroup.count).sum

def push (l : BlockList) (group : BlockGroupList) : BlockList :=
  match l with
  | single first => vec (first :: group.groups)
  | vec groups => vec (groups ++ group.groups)

/-- `From<BlockGroupList>` -/
def ofGroupList (l : BlockGroupList) : BlockList := vec l.groups

section Device
variable {D : Type} [BlockDevice D Block]

/-- Follow the chain of list blocks. -/
def readChain : (fuel : ℕ) → Option (DevicePointer .blockList) → Prog D FsError (List BlockGroup)
  | _, none => return []
  | 0, some _ => crash .diverge
  | fuel + 1, some ptr => do
    let block : FsBlockList ← mapErr mapDeviceError (readPointer ptr)
    let rest ← readChain fuel block.next
    return block.blocks.toList ++ rest

def read : BlockListHead → Prog D FsError BlockList
  | .single group => return single group
  | .list ptr => do return vec (← readChain LBA.addressCount (some ptr))

/-- Write one chunk of groups into each block, as long as there are both. -/
def writeBlocks : List LBA → List (List BlockGroup) → Prog D FsError Unit
  | lba :: rest, groups :: chunks => do
    mapErr mapDeviceError (BlockDevice.writeBlock lba (.blockList
      { blocks := StaticVec.collect groups, next := rest.head?.map DevicePointer.mk }))
    writeBlocks rest chunks
  | _, _ => return ()

def write : BlockList → Prog (BlockAllocator × D) FsError BlockListHead
  | single group => return .single group
  | vec groups => do
    let dataBlockCount := countsRequiredFor BLOCK_LIST_GROUP_COUNT groups.length
    assert (1 ≤ dataBlockCount)
    let dataBlocks ← zoom Prod.fst (fun a s => (a, s.2)) (BlockAllocator.allocate dataBlockCount)
    let first ← expect dataBlocks.groups.head?
    let lbas ← lift dataBlocks.blockIter
    zoom Prod.snd (fun d s => (s.1, d))
      (writeBlocks lbas (BlockAllocator.chunks BLOCK_LIST_GROUP_COUNT groups))
    return .list ⟨first.start⟩
end Device
end BlockList

inductive BlockListAccess where
  | onDevice (head : BlockListHead)
  | inMem (list : BlockList)
  | both (list : BlockList) (head : BlockListHead)
  deriving DecidableEq, Repr

/-- `get_list` and `get_list_mut`: the list must be in memory. -/
def BlockListAccess.getList : BlockListAccess → Checked BlockList
  | onDevice _ => .error .panic
  | inMem list => .ok list
  | both list _ => .ok list

/-! ## File nodes -/

/-- The name of a lock cell. -/
abbrev CellId := ℕ

/-- `mem_structs::FileNode`; `blockData` names the cell that holds the block list. -/
structure FileNode where
  id : FileId
  parent : Option FileId
  typ : FileType
  permissions : Perm × Perm × Perm × Perm
  uid : UInt32
  gid : UInt32
  size : ℕ
  createdAt : Timestamp
  modifiedAt : Timestamp
  blockData : CellId
  blockCount : ℕ
  deriving DecidableEq, Repr

/-- `FileNode::new`, its block list in the given cell. -/
def FileNode.new (id : FileId) (parent : Option FileId) (typ : FileType) (size : ℕ)
    (blockData : CellId) (blockCount : ℕ) : FileNode where
  id := id
  parent := parent
  typ := typ
  permissions := (0, 0, 0, 0)
  uid := 0
  gid := 0
  size := size
  createdAt := 0
  modifiedAt := 0
  blockData := blockData
  blockCount := blockCount

/-- The file node as the device stores it, with the given head. -/
def FileNode.toFs (f : FileNode) (blockData : BlockListHead) : FsFileNode where
  id := f.id
  parent := f.parent
  typ := f.typ
  permissions := f.permissions
  uid := f.uid
  gid := f.gid
  size := f.size
  createdAt := f.createdAt
  modifiedAt := f.modifiedAt
  blockData := blockData
  blockCount := f.blockCount

/-- `From<FsFileNode>`, its block list in the given cell. -/
def FileNode.ofFs (f : FsFileNode) (blockData : CellId) : FileNode where
  id := f.id
  parent := f.parent
  typ := f.typ
  permissions := f.permissions
  uid := f.uid
  gid := f.gid
  size := f.size
  createdAt := f.createdAt
  modifiedAt := f.modifiedAt
  blockData := blockData
  blockCount := f.blockCount

@[simp] theorem FileNode.ofFs_id (f : FsFileNode) (c : CellId) : (ofFs f c).id = f.id := rfl
end WasabiOS
