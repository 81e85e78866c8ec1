import WasabiOS.Kernel.PageAllocator
import WasabiOS.Kernel.PageTable

/-!
# Kernel/PageAllocatorInit — `page_allocator::init`

`init` starts from all addresses and takes out what is mapped, by a walk over the page tables through
their recursive mapping.  Which frames the walk reads as page tables is kept in a log; the code has no
such thing.
-/

open Machinery Prog
namespace WasabiOS

/-- the largets valid virt addr -/
def MAX_VIRT_ADDR : UInt64 := 0x0000ffffffffffff

/-- the index of the first page that can be allocated by the kernel `PageAllocator`. -/
def MIN_ALLOCATED_PAGE : UInt64 := 2

/-- The state of `init`. -/
structure Walk where
  vaddrs : RangeSet 256
  /-- the frames read as page tables -/
  tables : List ℕ

namespace Walk

/-- `vaddrs.remove(range)` -/
def remove (range : Range) : Prog Walk Empty Unit := zoom vaddrs (fun v w => { w with vaddrs := v })
    (stateful fun v => do return ((), ← v.remove range))

/-- `vaddrs.insert(range)` -/
def insert (range : Range) : Prog Walk Empty Unit := zoom vaddrs (fun v w => { w with vaddrs := v })
    (stateful fun v => do return ((), ← v.insert range))

/-- Take the addresses of a mapping out of `vaddrs`. -/
def removeMapped (S : PageSize) (virtAddr : UInt64) : Prog Walk Empty Unit := do
  remove ⟨virtAddr, ← lift (do U64.add virtAddr (← U64.sub S.SIZE 1))⟩

/-- The page at an address, read as a page table.  The address is canonical and mapped, or the read
faults. -/
def deref (t : RecursivePageTable) (p : PageIndices) : Prog Walk Empty PageTable :=
  if IsCanonical p.vaddr.toNat then
    match t.translate p with
    | some frame => do
      Prog.modify fun w => { w with tables := w.tables ++ [frame] }
      return t.memory frame
    | none => crash .undefined
  else crash .undefined
end Walk

/-- `level_indices.rotate_left(1); level_indices[3] = i` -/
def PageIndices.rotateLeft (p : PageIndices) (i : PageTableIndex) : PageIndices := ⟨p.l3, p.l2, p.l1, i⟩

/-- The body of the loop over the entries of a table, for an entry whose indices are `p`. -/
def visitEntry (t : RecursivePageTable) (level : ℕ)
    (recurse : PageTable → PageIndices → Prog Walk Empty Unit) (entry : PageTableEntry)
    (p : PageIndices) : Prog Walk Empty Unit :=
  if !entry.isPresent then return ()
  -- a huge entry of level 1 or 4 is passed over
  else if entry.isHuge && level != 3 && level != 2 then return ()
  else do
    if entry.isHuge then
      if level = 3 then Walk.removeMapped .Size1GiB (PageIndices.vaddr ⟨p.l2, p.l1, 0, 0⟩)
      else Walk.removeMapped .Size2MiB (PageIndices.vaddr ⟨p.l3, p.l2, p.l1, 0⟩)
    if level = 1 then Walk.removeMapped .Size4KiB p.vaddr
    else recurse (← Walk.deref t p) p

/-- helper function to recursively iterate over l4, l3, l2 and l1 page tables -/
def recursePageTablesRemoveMapped (t : RecursivePageTable) : ℕ → PageTable → PageIndices → Prog Walk Empty Unit
  | 0, _, _ => return ()
  | level + 1, pageTable, levelIndices =>
    forEach (fun i => visitEntry t (level + 1) (recursePageTablesRemoveMapped t level)
      (pageTable i) (levelIndices.rotateLeft i)) PageTableIndex.all

theorem isCanonical_trampoline : IsCanonical (0x8000 : UInt64).toNat := by decide

theorem aligned_trampoline : PageSize.Size4KiB.SIZE.toNat ∣ (0x8000 : UInt64).toNat := by decide

/-- The page at `TRAMPOLINE_ADDR`. -/
def trampolinePage : Page .Size4KiB := ⟨⟨0x8000, isCanonical_trampoline⟩, aligned_trampoline⟩

/-- Rserves the page for the identity map of the phys frame used for the ap startup trampoline. -/
def reservePages {S : PageSize} (page : Page S) : Prog Walk Empty Unit := do
  match ← zoom (fun w => ⟨w.vaddrs⟩) (fun a w => { w with vaddrs := a.vaddrs })
      (attempt (PageAllocator.tryAllocatePage page)) with
  | .ok _ => return ()
  | .error _ => Prog.panic

/-- The range of the recursive mapping, as `init` takes it out. -/
def pageTableRange (t : RecursivePageTable) : Checked Range := do
  let pageTableStart : VirtAddr ← MemAddr.new (PageIndices.vaddr ⟨t.recursiveIndex, 0, 0, 0⟩)
  let pageTableEndInclusive : VirtAddr ← MemAddr.new (PageIndices.vaddr ⟨t.recursiveIndex, 511, 511, 511⟩)
  return ⟨pageTableStart.asU64, pageTableEndInclusive.asU64⟩

/-- initialize the kernel page allocator. -/
def initAllocator (t : RecursivePageTable) : Prog Walk Empty Unit := do
  Walk.insert ⟨← lift (U64.mul MIN_ALLOCATED_PAGE PageSize.Size4KiB.SIZE), MAX_VIRT_ADDR⟩
  recursePageTablesRemoveMapped t 4 (t.memory t.level4)
    ⟨t.recursiveIndex, t.recursiveIndex, t.recursiveIndex, t.recursiveIndex⟩
  Walk.remove (← lift (pageTableRange t))
  reservePages trampolinePage
end WasabiOS
