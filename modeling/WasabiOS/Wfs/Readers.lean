import WasabiOS.Shared.Vec
import WasabiOS.Wfs.MemStructs
import WasabiOS.Wfs.Directory

/-!
# Wfs/Readers — reading structures, and the memory that takes

The readers once more, with the requests for memory they make and on a device of which only the reading of
structures is known.  A request that can fail is an error where the memory refuses it and a panic where it
overflows; one that cannot fail is a panic either way.  What a reader returns it returns also where memory is
never refused (`…_returnsAs`).
-/

open Machinery Prog
namespace WasabiOS
open List

/-- A device structures are read from. -/
class PointerDevice (D : Type) where
  readPointer {k : BlockKind} : DevicePointer k → Prog D DeviceError k.Content

instance instPointerDevice {D : Type} [BlockDevice D Block] : PointerDevice D where
  readPointer := WasabiOS.readPointer

namespace Reservation
variable {σ ε α : Type} {r : Reservation α} {a : α} {s s' : σ}

/-- `From<TryReserveError>` for `FsError` -/
def orFsError : Reservation α → Prog σ FsError α
  | granted a => pure a
  | allocError => Prog.throw .oom
  | capacityOverflow => Prog.panic

/-- A request that the code cannot do without. -/
def orAbort : Reservation α → Prog σ ε α
  | granted a => pure a
  | allocError => Prog.panic
  | capacityOverflow => Prog.panic

theorem orFsError_eq_ok : (r.orFsError : Prog σ FsError α) s = .ok a s' ↔ r = granted a ∧ s' = s := by
  cases r <;> simp [orFsError, eq_comm]

theorem orAbort_eq_ok : (r.orAbort : Prog σ ε α) s = .ok a s' ↔ r = granted a ∧ s' = s := by
  cases r <;> simp [orAbort, eq_comm]
end Reservation

/-! ## The readers -/

section Readers
variable {D : Type} [PointerDevice D] (grants : ℕ → Bool)

def readStringPartsIn : (fuel lengthRemaining : ℕ) → Option (DevicePointer .blockStringPart) →
    Prog D FsError (List UInt8)
  | fuel, lengthRemaining, nextPtr =>
    if lengthRemaining = 0 then return []
    else match fuel, nextPtr with
      | 0, _ => crash .diverge
      | _ + 1, none => Prog.throw (.malformedFs .malformedStringLength)
      | fuel + 1, some ptr => do
        let block : BlockStringPart ← mapErr mapDeviceError (PointerDevice.readPointer ptr)
        let lengthInBlock := min lengthRemaining BLOCK_STRING_PART_DATA_LENGTH
        let rest ← readStringPartsIn fuel (lengthRemaining - lengthInBlock) block.next
        return block.data.take lengthInBlock ++ rest

def readStringHeadIn {N : ℕ} (head : DeviceStringHead N) : Prog D FsError String := do
  -- `Vec::with_capacity`
  (requestBytes grants head.length).orAbort
  let lengthInBlock := min head.length BLOCK_STRING_DATA_LENGTH
  assert (lengthInBlock ≤ N)
  let rest ← readStringPartsIn head.length (head.length - lengthInBlock) head.next
  match fromUtf8 (head.data.take lengthInBlock ++ rest) with
  | some string => return string
  | none => Prog.throw (.malformedFs .malformedStringUtf8)

/-- The bytes of a [BlockGroup]. -/
def BLOCK_GROUP_BYTES : ℕ := 16

/-- The bytes of an [LBA]. -/
def LBA_BYTES : ℕ := 8

/-- The bytes of a `mem_structs::DirectoryEntry`: a boxed string and an id. -/
def DIRECTORY_ENTRY_BYTES : ℕ := 24

namespace DirectoryEntry

def loadIn (fsEntry : FsDirectoryEntry) : Prog D FsError DirectoryEntry := do
  return ⟨← readStringHeadIn grants fsEntry.name, fsEntry.fileId⟩
end DirectoryEntry

namespace Directory

/-- The vector has room for all entries that are pushed: no more than it was made for are counted. -/
def extendEntriesIn : List DirectoryEntry → List FsDirectoryEntry → Prog D FsError (List DirectoryEntry)
  | memEntries, [] => return memEntries
  | memEntries, entry :: deviceEntries => do
    let memEntry ← DirectoryEntry.loadIn grants entry
    extendEntriesIn (memEntries ++ [memEntry]) deviceEntries

def readPartsIn (expectedCount : ℕ) : (fuel : ℕ) → List DirectoryEntry → Option (DevicePointer .directoryPart) →
      Prog D FsError (List DirectoryEntry)
  | _, entries, none => return entries
  | 0, _, some _ => crash .diverge
  | fuel + 1, entries, some partPtr => do
    let part : DirectoryPart ← mapErr mapDeviceError (PointerDevice.readPointer partPtr)
    if entries.length + part.entries.len > expectedCount then
      Prog.throw (countMismatch expectedCount (entries.length + part.entries.len))
    else
      let entries ← extendEntriesIn grants entries part.entries.toList
      readPartsIn expectedCount fuel entries part.next

def readIn (fuel : ℕ) (devicePtr : DevicePointer .directoryHead) : Prog D FsError Directory := do
  let head : DirectoryHead ← mapErr mapDeviceError (PointerDevice.readPointer devicePtr)
  let expectedCount := head.entryCount
  if expectedCount < head.entries.len then Prog.throw (countMismatch expectedCount head.entries.len)
  else
    -- `Vec::try_with_capacity`
    (requestBytes grants (expectedCount * DIRECTORY_ENTRY_BYTES)).orFsError
    let entries ← extendEntriesIn grants [] head.entries.toList
    let entries ← readPartsIn grants expectedCount fuel entries head.next
    if entries.length ≠ expectedCount then Prog.throw (countMismatch expectedCount entries.length)
    else return ⟨head.parent, entries⟩
end Directory

namespace BlockList

def readChainIn : (fuel : ℕ) → Vec BlockGroup → Option (DevicePointer .blockList) → Prog D FsError (List BlockGroup)
  | _, list, none => return list.elems
  | 0, _, some _ => crash .diverge
  | fuel + 1, list, some ptr => do
    let block : FsBlockList ← mapErr mapDeviceError (PointerDevice.readPointer ptr)
    let list ← (list.extend grants BLOCK_GROUP_BYTES block.blocks.toList).orFsError
    readChainIn fuel list block.next

def readIn (fuel : ℕ) : BlockListHead → Prog D FsError BlockList
  | .single group => return single group
  | .list ptr => do return vec (← readChainIn grants fuel Vec.new (some ptr))
end BlockList

namespace BlockAllocator

def loadChainIn : (fuel : ℕ) → Vec BlockGroup → Vec LBA → Option (DevicePointer .freeBlockGroups) →
    Prog D DeviceError (List BlockGroup × List LBA)
  | _, free, selfOnDisk, none => return (free.elems, selfOnDisk.elems)
  | 0, _, _, some _ => crash .diverge
  | fuel + 1, free, selfOnDisk, some block => do
    let selfOnDisk ← (selfOnDisk.push grants LBA_BYTES block.lba).orAbort
    let data : FreeBlockGroups ← PointerDevice.readPointer block
    let free ← (free.pushAll grants BLOCK_GROUP_BYTES data.free.toList).orAbort
    loadChainIn fuel free selfOnDisk data.next

def loadIn (fuel : ℕ) (freeBlocks : DevicePointer .freeBlockGroups) : Prog D DeviceError BlockAllocator := do
  let (free, selfOnDisk) ← loadChainIn grants fuel Vec.new Vec.new (some freeBlocks)
  let blockAllocator := { free, onDisk := some freeBlocks, selfOnDisk, dirty := false : BlockAllocator }
  assert (← lift blockAllocator.checkConsistent)
  return blockAllocator
end BlockAllocator
end Readers

/-! ## Where memory is never refused -/

section Refinement
variable {D : Type} [BlockDevice D Block] {grants : ℕ → Bool}

theorem readStringPartsIn_eq : ∀ (fuel remaining : ℕ) (ptr : Option (DevicePointer .blockStringPart)),
    (readStringPartsIn fuel remaining ptr : Prog D FsError (List UInt8)) = readStringParts fuel remaining ptr
  | 0, remaining, ptr => by rw [readStringPartsIn, readStringParts]
  | fuel + 1, remaining, none => by rw [readStringPartsIn, readStringParts]
  | fuel + 1, remaining, some ptr => by
    rw [readStringPartsIn, readStringParts]
    simp only [readStringPartsIn_eq fuel]
    rfl

theorem readStringHeadIn_returnsAs {N : ℕ} (head : DeviceStringHead N) :
    (readStringHeadIn grants head : Prog D FsError String).ReturnsAs (readStringHead head) := by
  refine ReturnsAs.of_inserted (P := fun _ => True)
    (fun _ _ _ h => ⟨(Reservation.orAbort_eq_ok.1 h).2, trivial⟩) fun _ _ => ?_
  simp only [readStringPartsIn_eq]
  exact ReturnsAs.refl _

theorem DirectoryEntry.loadIn_returnsAs_load (e : FsDirectoryEntry) :
    (DirectoryEntry.loadIn grants e : Prog D FsError DirectoryEntry).ReturnsAs (DirectoryEntry.load e) :=
  (readStringHeadIn_returnsAs e.name).bind fun _ => .refl _

namespace Directory

theorem extendEntriesIn_returnsAs (entries : List DirectoryEntry) (es : List FsDirectoryEntry) :
    (extendEntriesIn grants entries es : Prog D FsError _).ReturnsAs (extendEntries entries es) := by
  induction es generalizing entries with
  | nil => exact .refl _
  | cons e es ih => exact (DirectoryEntry.loadIn_returnsAs_load e).bind fun _ => ih _

theorem readPartsIn_returnsAs (expected : ℕ) : ∀ (fuel : ℕ) (entries : List DirectoryEntry)
    (ptr : Option (DevicePointer .directoryPart)),
    (readPartsIn grants expected fuel entries ptr : Prog D FsError _).ReturnsAs (readParts expected fuel entries ptr)
  | 0, _, none => .refl _
  | _ + 1, _, none => .refl _
  | 0, _, some _ => .refl _
  | fuel + 1, entries, some ptr => by
    refine ReturnsAs.bind (.refl _) fun part => ?_
    split
    · exact .refl _
    · exact (extendEntriesIn_returnsAs _ _).bind fun _ => readPartsIn_returnsAs expected fuel _ _

end Directory

namespace BlockList

theorem readChainIn_returnsAs : ∀ (fuel : ℕ) (list : Vec BlockGroup) (ptr : Option (DevicePointer .blockList)),
    (readChainIn grants fuel list ptr : Prog D FsError _).ReturnsAs ((list.elems ++ ·) <$> readChain fuel ptr)
  | 0, list, none => by
    rw [readChainIn, readChain, map_pure, append_nil]
    exact .refl _
  | fuel + 1, list, none => by
    rw [readChainIn, readChain, map_pure, append_nil]
    exact .refl _
  | 0, list, some _ => by
    intro s a s' h
    cases h
  | fuel + 1, list, some ptr => by
    rw [readChain, map_bind]
    refine ReturnsAs.bind (.refl _) fun block => ?_
    refine ReturnsAs.of_inserted (P := fun v : Vec BlockGroup => v.elems = list.elems ++ block.blocks.toList)
      (fun _ _ _ h => ?_) fun v hv => ?_
    · obtain ⟨h, hs⟩ := Reservation.orFsError_eq_ok.1 h
      exact ⟨hs, Vec.elems_of_extend h⟩
    · have hrest := readChainIn_returnsAs fuel v block.next
      rw [hv] at hrest
      simpa only [map_eq_pure_bind, bind_assoc, pure_bind, append_assoc] using hrest

/-- **What a list is read as.** -/
theorem readIn_returnsAs_read : ∀ head : BlockListHead,
    (readIn grants LBA.addressCount head : Prog D FsError BlockList).ReturnsAs (read head)
  | .single _ => .refl _
  | .list ptr => by
    have hchain : (readChainIn grants LBA.addressCount Vec.new (some ptr) : Prog D FsError _).ReturnsAs _ :=
      readChainIn_returnsAs _ _ _
    simp only [Vec.elems_new, nil_append, id_map'] at hchain
    exact hchain.bind fun _ => .refl _
end BlockList

namespace BlockAllocator

theorem loadChainIn_returnsAs : ∀ (fuel : ℕ) (free : Vec BlockGroup) (self : Vec LBA)
    (ptr : Option (DevicePointer .freeBlockGroups)),
    (loadChainIn grants fuel free self ptr : Prog D DeviceError _).ReturnsAs
      ((fun p => (free.elems ++ p.1, self.elems ++ p.2)) <$> loadChain fuel ptr)
  | 0, free, self, none => by
    rw [loadChainIn, loadChain, map_pure, append_nil, append_nil]
    exact .refl _
  | fuel + 1, free, self, none => by
    rw [loadChainIn, loadChain, map_pure, append_nil, append_nil]
    exact .refl _
  | 0, free, self, some _ => by
    intro s a s' h
    cases h
  | fuel + 1, free, self, some ptr => by
    rw [loadChain, map_bind]
    refine ReturnsAs.of_inserted (P := fun v : Vec LBA => v.elems = self.elems ++ [ptr.lba])
      (fun _ _ _ h => ?_) fun self' hself => ReturnsAs.bind (.refl _) fun data => ?_
    · obtain ⟨h, hs⟩ := Reservation.orAbort_eq_ok.1 h
      exact ⟨hs, Vec.elems_of_push h⟩
    refine ReturnsAs.of_inserted (P := fun v : Vec BlockGroup => v.elems = free.elems ++ data.free.toList)
      (fun _ _ _ h => ?_) fun free' hfree => ?_
    · obtain ⟨h, hs⟩ := Reservation.orAbort_eq_ok.1 h
      exact ⟨hs, Vec.elems_of_pushAll h⟩
    · have hrest := loadChainIn_returnsAs fuel free' self' data.next
      rw [hself, hfree] at hrest
      simpa only [map_eq_pure_bind, bind_assoc, pure_bind, append_assoc, singleton_append] using hrest

end BlockAllocator
end Refinement
end WasabiOS
