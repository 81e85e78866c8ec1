import WasabiOS.BlockDevice.Device
import WasabiOS.Data.StaticVec
import WasabiOS.Shared.Counts

/-!
# Wfs/FsStructs — the structures stored on the device

A block holds one of the structures below or plain file data.  Device pointers carry the kind of
block they name (`DevicePointer k`), and `Block.read` is what `read_pointer` may rely on: the block
was last written as that kind.  How a structure is laid out in bytes is the compiler's business; a
`BlockLayout` gives the byte view, which only partial writes and the search for foreign file systems
look at.
-/

open Machinery Prog
namespace WasabiOS

/-! ## File ids -/

/-- A unique identifier of a node: a nonzero `u64`. -/
@[ext] structure FileId where
  get : ℕ
  pos : 0 < get
  get_lt : get < u64Size
  deriving Repr

namespace FileId

instance : DecidableEq FileId := fun a b => decidable_of_iff (a.get = b.get) FileId.ext_iff.symm

theorem get_injective : Function.Injective FileId.get := fun _ _ h => FileId.ext h

instance : LinearOrder FileId := LinearOrder.lift' FileId.get get_injective

theorem le_def {a b : FileId} : a ≤ b ↔ a.get ≤ b.get := Iff.rfl

theorem lt_def {a b : FileId} : a < b ↔ a.get < b.get := Iff.rfl

def tryNew (id : ℕ) : Option FileId :=
  if h : 0 < id then if h' : id < u64Size then some ⟨id, h, h'⟩ else none else none

/-- `self + 1`, which overflows on the largest id. -/
def next (id : FileId) : Checked FileId :=
  if h : id.get + 1 < u64Size then .ok ⟨id.get + 1, Nat.succ_pos _, h⟩ else .error .panic

theorem max_pos : 0 < u64Size - 1 := by decide

theorem max_lt : u64Size - 1 < u64Size := by decide

theorem root_lt : 1 < u64Size := by decide

def MAX : FileId := ⟨u64Size - 1, max_pos, max_lt⟩

/-- The FileId of the root node -/
def ROOT : FileId := ⟨1, Nat.one_pos, root_lt⟩

theorem le_MAX (id : FileId) : id ≤ MAX := Nat.le_sub_one_of_lt id.get_lt
end FileId

/-! ## Device pointers -/

/-- The kinds of structure a block can hold. -/
inductive BlockKind where
  | mainHeader | treeNode | freeBlockGroups | blockString | blockStringPart | blockList
  | directoryHead | directoryPart
  deriving DecidableEq, Repr

/-- A pointer to a block of kind `k`. -/
@[ext] structure DevicePointer (k : BlockKind) where
  /-- the address on the device -/
  lba : LBA
  deriving DecidableEq, Repr

/-! ## The structures -/

/-- The number of [BlockGroup]s in an on device block list. -/
def BLOCK_LIST_GROUP_COUNT : ℕ := (BLOCK_SIZE - (1 + 8)) / 16

/-- Either a single [BlockGroup] or a [DevicePointer] to a [BlockList] -/
inductive BlockListHead where
  | single (group : BlockGroup)
  | list (ptr : DevicePointer .blockList)
  deriving DecidableEq, Repr

/-- `From<LBA>` -/
def BlockListHead.ofLBA (lba : LBA) : BlockListHead := .single (.single lba)

/-- A list of [BlockGroup]s (`fs_structs::BlockList`). -/
structure FsBlockList where
  blocks : StaticVec BlockGroup BLOCK_LIST_GROUP_COUNT
  next : Option (DevicePointer .blockList)
  deriving DecidableEq, Repr

/-- The maximum size of the string data that can be stored in the initial block string. -/
def BLOCK_STRING_DATA_LENGTH : ℕ := BLOCK_SIZE - (4 + 8)

/-- The maximum size of the string data that can be stored in a [BlockStringPart] -/
def BLOCK_STRING_PART_DATA_LENGTH : ℕ := BLOCK_SIZE - 8

/-- A string stored over 1 or multiple blocks; `N` is the room for data in the head. -/
structure DeviceStringHead (N : ℕ) where
  length : ℕ
  data : List UInt8
  data_length : data.length = N
  next : Option (DevicePointer .blockStringPart)
  deriving DecidableEq, Repr

/-- A part of a block string. -/
structure BlockStringPart where
  data : List UInt8
  data_length : data.length = BLOCK_STRING_PART_DATA_LENGTH
  next : Option (DevicePointer .blockStringPart)
  deriving DecidableEq, Repr

inductive FileType where
  | file
  | directory
  deriving DecidableEq, Repr

/-- `bitflags! Perm: u8` -/
abbrev Perm := UInt8

abbrev Timestamp := UInt64

/-- `fs_structs::FileNode` -/
structure FsFileNode where
  id : FileId
  parent : Option FileId
  typ : FileType
  permissions : Perm × Perm × Perm × Perm
  uid : UInt32
  gid : UInt32
  size : ℕ
  createdAt : Timestamp
  modifiedAt : Timestamp
  blockData : BlockListHead
  blockCount : ℕ
  deriving DecidableEq, Repr

abbrev Uuid := BitVec 128

inductive FsStatus where
  /-- The file system is not yet initialized -/
  | uninitialized
  /-- The file system is ready and can be used -/
  | ready
  deriving DecidableEq, Repr

structure MainTransientHeader where
  magic : List UInt8
  mountCount : ℕ
  openInWriteMode : Bool
  status : FsStatus
  deriving DecidableEq, Repr

/-- Magic at the start of the [MainTransientHeader] -/
def MainTransientHeader.MAGIC : List UInt8 := "WaTh".toUTF8.toList

structure MainHeader where
  magic : List UInt8
  version : UInt8 × UInt8 × UInt8 × UInt8
  uuid : Uuid
  root : DevicePointer .treeNode
  freeBlocks : DevicePointer .freeBlockGroups
  /-- A copy of the header, that should be kept in sync with the main header in the 0th block -/
  backupHeader : DevicePointer .mainHeader
  /-- A name for the filesystem -/
  name : Option (DevicePointer .blockString)
  transient : Option MainTransientHeader
  /-- The next free file id. -/
  nextFileId : FileId
  deriving DecidableEq, Repr

/-- A magic string that must be part of the header -/
def MainHeader.MAGIC : List UInt8 := "WasabiFs".toUTF8.toList

/-- The current version of the fs -/
def FS_VERSION : UInt8 × UInt8 × UInt8 × UInt8 := (0, 1, 0, 255)

def MAIN_HEADER_BLOCK : LBA := LBA.ZERO

/-- The header as the backup block stores it. -/
def MainHeader.toBackup (h : MainHeader) : MainHeader :=
  { h with backupHeader := ⟨MAIN_HEADER_BLOCK⟩, transient := none }

def MainHeader.matchesBackup (h backup : MainHeader) : Checked Bool :=
  if h.transient.isSome ∧ h.backupHeader.lba ≠ MAIN_HEADER_BLOCK then
    .ok (decide (h.toBackup = backup))
  else .error .panic

def LEAVE_MAX_FILE_COUNT : ℕ := 20

def NODE_MAX_CHILD_COUNT : ℕ := 250

inductive TreeNode where
  | leave (files : StaticVec FsFileNode LEAVE_MAX_FILE_COUNT)
  | node (children : StaticVec (DevicePointer .treeNode × Option FileId) NODE_MAX_CHILD_COUNT)
  deriving DecidableEq, Repr

/-- The number of free [BlockGroup]s that fit within a single [FreeBlockGroups] -/
def BLOCK_RANGES_COUNT_PER_BLOCK : ℕ := 250

/-- Used to keep track of unsused [BlockGroup]s. -/
structure FreeBlockGroups where
  free : StaticVec BlockGroup BLOCK_RANGES_COUNT_PER_BLOCK
  next : Option (DevicePointer .freeBlockGroups)
  deriving DecidableEq, Repr

/-- `fs_structs::DirectoryEntry` -/
structure FsDirectoryEntry where
  name : DeviceStringHead 100
  fileId : FileId
  deriving DecidableEq, Repr

def DIRECTORY_HEAD_ENTRY_COUNT : ℕ := 33

structure DirectoryHead where
  parent : Option FileId
  entryCount : ℕ
  entries : StaticVec FsDirectoryEntry DIRECTORY_HEAD_ENTRY_COUNT
  next : Option (DevicePointer .directoryPart)
  deriving DecidableEq, Repr

/-- A directory entry takes 120 bytes. -/
def DIRECTORY_PART_ENTRY_COUNT : ℕ := (BLOCK_SIZE - (1 + 8)) / 120

structure DirectoryPart where
  entries : StaticVec FsDirectoryEntry DIRECTORY_PART_ENTRY_COUNT
  next : Option (DevicePointer .directoryPart)
  deriving DecidableEq, Repr

/-! ## Blocks -/

/-- What a block holds. -/
inductive Block where
  | mainHeader (h : MainHeader)
  | treeNode (t : TreeNode)
  | freeBlockGroups (f : FreeBlockGroups)
  | blockString (s : DeviceStringHead BLOCK_STRING_DATA_LENGTH)
  | blockStringPart (s : BlockStringPart)
  | blockList (l : FsBlockList)
  | directoryHead (d : DirectoryHead)
  | directoryPart (d : DirectoryPart)
  | data (bytes : List UInt8)
  deriving DecidableEq, Repr

/-- The structure a block of kind `k` holds. -/
abbrev BlockKind.Content : BlockKind → Type
  | .mainHeader => MainHeader
  | .treeNode => TreeNode
  | .freeBlockGroups => FreeBlockGroups
  | .blockString => DeviceStringHead BLOCK_STRING_DATA_LENGTH
  | .blockStringPart => BlockStringPart
  | .blockList => FsBlockList
  | .directoryHead => DirectoryHead
  | .directoryPart => DirectoryPart

/-- The structure of kind `k` a block holds. -/
def Block.read : (k : BlockKind) → Block → Option k.Content
  | .mainHeader, .mainHeader h => some h
  | .treeNode, .treeNode t => some t
  | .freeBlockGroups, .freeBlockGroups f => some f
  | .blockString, .blockString s => some s
  | .blockStringPart, .blockStringPart s => some s
  | .blockList, .blockList l => some l
  | .directoryHead, .directoryHead d => some d
  | .directoryPart, .directoryPart d => some d
  | _, _ => none

/-- The bytes of the on device structures, as the compiler lays them out. -/
class BlockLayout where
  bytes : Block → List UInt8

/-- A layout for runs in which nobody looks at the bytes of a block. -/
@[reducible] def noBytes : BlockLayout := ⟨fun _ => []⟩

instance [BlockLayout] : BlockBytes Block where
  toBytes
    | .data bytes => bytes
    | b => BlockLayout.bytes b
  ofBytes := .data

/-- Read a structure from the device: the block must have been written as one of that kind. -/
def readPointer {D : Type} [BlockDevice D Block] {k : BlockKind} (ptr : DevicePointer k) :
    Prog D DeviceError k.Content := do
  match (← BlockDevice.readBlock ptr.lba).read k with
  | some c => pure c
  | none => crash .undefined

section Disk
variable [BlockLayout]

@[simp] theorem readBlock_disk (lba : LBA) (d : Disk Block) :
    (BlockDevice.readBlock lba : Prog (Disk Block) DeviceError Block) d = .ok (d.blocks lba) d := rfl

/-- On a disk a pointer reads the structure its block holds. -/
theorem readPointer_disk {k : BlockKind} {ptr : DevicePointer k} {d : Disk Block} {c : k.Content}
    (h : (d.blocks ptr.lba).read k = some c) : readPointer ptr d = .ok c d := by
  simp [readPointer, h]
end Disk

/-- Calculate the number of blocks required for `bytes` memory. -/
def blocksRequiredFor (bytes : ℕ) : ℕ := countsRequiredFor BLOCK_SIZE bytes
end WasabiOS
