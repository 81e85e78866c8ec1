import WasabiOS.Kernel.Paging
import WasabiOS.Shared.RangeSet

/-!
# Kernel/PageAllocator — the kernel page allocator

The allocator keeps the free virtual addresses in a `RangeSet`.  Its statistics are in `Kernel/MemStats`.
-/

open Machinery Prog
namespace WasabiOS

/-- The errors of the two allocators. -/
inductive MemError where
  | outOfMemory
  | outOfPages
  | nullAddress
  | pageInUse
  deriving DecidableEq, Repr

/-- a number of consecutive pages in virtual memory. -/
structure Pages (S : PageSize) where
  /-- the first page -/
  firstPage : Page S
  /-- the number of consecutive pages in virtual memory -/
  count : UInt64
  deriving DecidableEq, Repr

/-- a number of consecutive pages in virtual memory with 2 additional optional guard pages.  guard pages
are allways 4KiB in size. -/
structure GuardedPages (S : PageSize) where
  /-- optional guard page before the pages -/
  headGuard : Option (Page .Size4KiB)
  /-- optional guard page after the pages -/
  tailGuard : Option (Page .Size4KiB)
  /-- the pages -/
  pages : Pages S
  deriving DecidableEq, Repr

/-- A page allocator -/
structure PageAllocator where
  /-- rangeset used by the allocator to keep track of used virt mem -/
  vaddrs : RangeSet 256
  deriving DecidableEq, Repr

namespace PageAllocator
variable {α : Type} {S : PageSize}

/-- An operation on the free addresses. -/
def onVaddrs (op : RangeSet 256 → Checked (α × RangeSet 256)) : Prog PageAllocator MemError α :=
  zoom vaddrs (fun v _ => ⟨v⟩) (stateful op)

/-- The addresses of a page. -/
def pageRange (page : Page S) : Checked Range := do
  return ⟨page.start, ← U64.add page.start (← U64.sub S.SIZE 1)⟩

/-- tries to allocate the given page in this allocator. -/
def tryAllocatePage (page : Page S) : Prog PageAllocator MemError Unit :=
  if page.start = 0 then Prog.throw .nullAddress
  else do
    let range ← lift (pageRange page)
    if ← onVaddrs (·.removeIfExist range) then return ()
    else Prog.throw .pageInUse

/-- Allocate `size` bytes, as the address they start at. -/
def allocateFrom (size align : UInt64) : Prog PageAllocator MemError VirtAddr := do
  match ← onVaddrs (·.allocate size align) with
  | some s => lift (MemAddr.new s)
  | none => Prog.throw .outOfPages

/-- allocates a new page of virtual memory. -/
def allocatePage (S : PageSize) : Prog PageAllocator MemError (Page S) := do
  let start ← allocateFrom S.SIZE S.SIZE
  lift (Aligned.fromStartAddress S start)

/-- allocates multiple consecutive pages of virtual memory. -/
def allocatePages (S : PageSize) (count : UInt64) : Prog PageAllocator MemError (Pages S) := do
  let size ← lift (U64.mul S.SIZE count)
  let start ← allocateFrom size S.SIZE
  lift (do return ⟨← Aligned.fromStartAddress S start, count⟩)

/-- Room for a guard page, if there is to be one. -/
def addGuard (guard : Bool) (size : UInt64) : Checked UInt64 :=
  if guard then U64.add size PageSize.Size4KiB.SIZE else return size

/-- The size of pages with guards. -/
def guardedSize (S : PageSize) (count : UInt64) (headGuard tailGuard : Bool) : Checked UInt64 := do
  addGuard tailGuard (← addGuard headGuard (← U64.mul S.SIZE count))

/-- The alignment of pages with guards. -/
def guardedAlign (S : PageSize) (headGuard : Bool) : Checked UInt64 :=
  if headGuard then
    match S with
    | .Size4KiB => return S.SIZE
    | .Size2MiB => U64.sub S.SIZE PageSize.Size4KiB.SIZE
    | .Size1GiB => U64.sub S.SIZE PageSize.Size4KiB.SIZE
  else return S.SIZE

/-- The head guard, if there is to be one, and the address behind it. -/
def headGuardAt (headGuard : Bool) (start : VirtAddr) : Checked (Option (Page .Size4KiB) × VirtAddr) :=
  if headGuard then do
    let guard ← Aligned.fromStartAddress .Size4KiB start
    return (some guard, ← start.add PageSize.Size4KiB.SIZE)
  else return (none, start)

/-- The tail guard, if there is to be one. -/
def tailGuardAt (tailGuard : Bool) (start : VirtAddr) : Checked (Option (Page .Size4KiB)) :=
  if tailGuard then do return some (← Aligned.fromStartAddress .Size4KiB start)
  else return none

/-- The pages with guards that start at `start`. -/
def guardedAt (S : PageSize) (count : UInt64) (headGuard tailGuard : Bool) (start : VirtAddr) :
    Checked (GuardedPages S) := do
  let head ← headGuardAt headGuard start
  let firstPage ← Aligned.fromStartAddress S head.2
  let start ← head.2.add (← U64.mul S.SIZE count)
  let tail ← tailGuardAt tailGuard start
  return ⟨head.1, tail, ⟨firstPage, count⟩⟩

/-- allocate multiple consecutive pages, with additional guard pages. -/
def allocateGuardedPages (S : PageSize) (count : UInt64) (headGuard tailGuard : Bool) :
    Prog PageAllocator MemError (GuardedPages S) :=
  if !headGuard && !tailGuard then do
    let pages ← allocatePages S count
    return ⟨none, none, pages⟩
  else do
    let size ← lift (guardedSize S count headGuard tailGuard)
    let align ← lift (guardedAlign S headGuard)
    let start ← allocateFrom size align
    lift (guardedAt S count headGuard tailGuard start)

/-- frees a page -/
def freePage (page : Page S) : Prog PageAllocator MemError Unit := do
  let range ← lift (pageRange page)
  onVaddrs fun v => do return ((), ← v.insert range)

/-- The loop of `free_pages`, from a page index on. -/
def freePagesFrom (firstPage : Page S) (index : ℕ) : ℕ → Prog PageAllocator MemError Unit
  | 0 => return ()
  | n + 1 => do
    freePage (← lift (firstPage.add (UInt64.ofNat index)))
    freePagesFrom firstPage (index + 1) n

/-- frees multiple pages -/
def freePages (pages : Pages S) : Prog PageAllocator MemError Unit := freePagesFrom pages.firstPage 0 pages.count.toNat

/-- Frees a guard page, if there is one. -/
def freeGuard : Option (Page S) → Prog PageAllocator MemError Unit
  | some guard => freePage guard
  | none => return ()

/-- frees multiple pages -/
def freeGuardedPages (pages : GuardedPages S) : Prog PageAllocator MemError Unit := do
  freePages pages.pages
  freeGuard pages.headGuard
  freeGuard pages.tailGuard
end PageAllocator
end WasabiOS
