import WasabiOS.Wfs.DeviceString

/-!
# Wfs/Directory — directories in memory and on the device

The entries of a directory are spread over a head block and a chain of part blocks.  `write` allocates the
blocks first: it takes the number of entries that do not fit the head for a number of bytes.
-/

open Machinery Prog
namespace WasabiOS

/-- `mem_structs::DirectoryEntry` -/
structure DirectoryEntry where
  name : String
  id : FileId
  deriving DecidableEq, Repr

structure Directory where
  parentId : Option FileId
  entries : List DirectoryEntry
  deriving DecidableEq, Repr

section Device
variable {D : Type} [BlockDevice D Block]
namespace DirectoryEntry

def load (fsEntry : FsDirectoryEntry) : Prog D FsError DirectoryEntry := do
  return ⟨← readStringHead fsEntry.name, fsEntry.fileId⟩

def write (entry : DirectoryEntry) : Prog (BlockAllocator × D) FsError FsDirectoryEntry := do
  return ⟨← writeStringHead 100 entry.name, entry.id⟩
end DirectoryEntry

namespace Directory

def countMismatch (expected found : ℕ) : FsError := .malformedFs (.directoryEntryCountMismatch expected found)

def extendEntries : List DirectoryEntry → List FsDirectoryEntry → Prog D FsError (List DirectoryEntry)
  | memEntries, [] => return memEntries
  | memEntries, entry :: deviceEntries => do
    let memEntry ← DirectoryEntry.load entry
    extendEntries (memEntries ++ [memEntry]) deviceEntries

/-- Follow the chain of part blocks. -/
def readParts (expectedCount : ℕ) : (fuel : ℕ) → List DirectoryEntry → Option (DevicePointer .directoryPart) →
      Prog D FsError (List DirectoryEntry)
  | _, entries, none => return entries
  | 0, _, some _ => crash .diverge
  | fuel + 1, entries, some partPtr => do
    let part : DirectoryPart ← mapErr mapDeviceError (readPointer partPtr)
    if entries.length + part.entries.len > expectedCount then
      Prog.throw (countMismatch expectedCount (entries.length + part.entries.len))
    else
      let entries ← extendEntries entries part.entries.toList
      readParts expectedCount fuel entries part.next

/-- Loads a directory from a [BlockDevice] -/
def read (devicePtr : DevicePointer .directoryHead) : Prog D FsError Directory := do
  let head : DirectoryHead ← mapErr mapDeviceError (readPointer devicePtr)
  let expectedCount := head.entryCount
  if expectedCount < head.entries.len then Prog.throw (countMismatch expectedCount head.entries.len)
  else
    let entries ← extendEntries [] head.entries.toList
    let entries ← readParts expectedCount LBA.addressCount entries head.next
    if entries.length ≠ expectedCount then Prog.throw (countMismatch expectedCount entries.length)
    else return ⟨head.parent, entries⟩

def writeEntries {N : ℕ} : StaticVec FsDirectoryEntry N → List DirectoryEntry →
      Prog (BlockAllocator × D) FsError (StaticVec FsDirectoryEntry N)
  | written, [] => return written
  | written, memEntry :: entries => do
    let written ← lift (written.push (← memEntry.write))
    writeEntries written entries

/-- Write one chunk of entries into each block, as long as there are both. -/
def writeParts : List LBA → List (List DirectoryEntry) → Prog (BlockAllocator × D) FsError Unit
  | blockLba :: blocks, entries :: chunks => do
    let partEntries ← writeEntries StaticVec.new entries
    onDevice (mapErr mapDeviceError (BlockDevice.writeBlock blockLba (.directoryPart
      { entries := partEntries, next := blocks.head?.map DevicePointer.mk })))
    writeParts blocks chunks
  | _, _ => return ()

/-- The blocks `write` allocates. -/
def blocksRequired (dir : Directory) : ℕ :=
  let entriesInParts :=
    if dir.entries.length > DIRECTORY_HEAD_ENTRY_COUNT then dir.entries.length - DIRECTORY_HEAD_ENTRY_COUNT
    else 0
  blocksRequiredFor entriesInParts + 1

/-- Stores the directory to a [BlockDevice] -/
def write (dir : Directory) : Prog (BlockAllocator × D) FsError (DevicePointer .directoryHead) := do
  let list ← onAllocator (BlockAllocator.allocate dir.blocksRequired)
  let lbas ← lift list.blockIter
  match lbas with
  | [] => Prog.panic
  | headBlockLba :: blocks =>
    let headEntries ← writeEntries StaticVec.new (dir.entries.take DIRECTORY_HEAD_ENTRY_COUNT)
    onDevice (mapErr mapDeviceError (BlockDevice.writeBlock headBlockLba (.directoryHead
      { parent := dir.parentId
        entryCount := dir.entries.length
        entries := headEntries
        next := blocks.head?.map DevicePointer.mk })))
    writeParts blocks (BlockAllocator.chunks DIRECTORY_PART_ENTRY_COUNT (dir.entries.drop DIRECTORY_HEAD_ENTRY_COUNT))
    return ⟨headBlockLba⟩
end Directory
end Device
end WasabiOS
