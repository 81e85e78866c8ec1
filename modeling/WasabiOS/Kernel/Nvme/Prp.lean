import WasabiOS.Kernel.Nvme.Queue
import WasabiOS.Kernel.PageAllocator

/-!
# Kernel/Nvme/Prp — physical region pages

A command says where its data is by one or two entries, or by a list of entries in pages of its own.
Those pages come from the `MappingsAllocator`, which keeps some for reuse and else asks the kernel; what
the kernel answers is `supply`.

Addresses, pages and frames are natural numbers; a page and a frame are named by their first address.
-/

open Machinery Prog
namespace WasabiOS
namespace Nvme

/-- `size_of::<PrpEntry>()` divides a page into that many entries. -/
def PAGE_ENTRY_COUNT : ℕ := 512

inductive PrpEntryError where
  | notDwordAligned
  | offsetToLarge
  deriving DecidableEq, Repr

namespace PrpEntry

/-- An entry is a `u64`: a frame and an offset into it. -/
def withOffset (frame offset : ℕ) : Except PrpEntryError ℕ :=
  if PAGE_SIZE ≤ offset then .error .offsetToLarge
  else if offset &&& 0b11 ≠ 0 then .error .notDwordAligned
  else .ok (frame ||| offset)

def offset (entry : ℕ) : ℕ := entry &&& (PAGE_SIZE - 1)
end PrpEntry

/-- A page and the frame it is mapped to. -/
structure Mapping where
  page : ℕ
  frame : ℕ
  deriving DecidableEq, Repr

/-! ## The allocator of pages for lists -/

/-- 1 MiB of pages. -/
def MAX_REUSE_PRP_PAGE_COUNT : ℕ := 256

structure MappingsAllocator where
  freeMappings : List Mapping
  /-- what the kernel answers when it is asked for the `i`-th time -/
  supply : ℕ → Except MemError Mapping
  /-- how often the kernel has been asked -/
  drawn : ℕ
  /-- the entries in the pages -/
  memory : ℕ → ℕ → ℕ

namespace MappingsAllocator

/-- `free_mappings.pop()` -/
def pop (a : MappingsAllocator) : MappingsAllocator := { a with freeMappings := a.freeMappings.dropLast }

/-- The kernel is asked once more. -/
def draw (a : MappingsAllocator) : MappingsAllocator := { a with drawn := a.drawn + 1 }

/-- An entry is written. -/
def write (page slot entry : ℕ) (a : MappingsAllocator) : MappingsAllocator :=
  { a with memory := Function.update a.memory page (Function.update (a.memory page) slot entry) }

/-- allocates a new single page mapping -/
def allocate : Prog MappingsAllocator MemError Mapping := do
  let a ← Prog.get
  match a.freeMappings.getLast? with
  | some mapping =>
    Prog.modify pop
    return mapping
  | none =>
    Prog.modify draw
    ofExcept (a.supply a.drawn)

/-- Free a mapping created using `allocate`; one that is not kept goes back to the kernel. -/
def free (a : MappingsAllocator) (mapping : Mapping) : MappingsAllocator :=
  if a.freeMappings.length < MAX_REUSE_PRP_PAGE_COUNT then { a with freeMappings := a.freeMappings ++ [mapping] }
  else a
end MappingsAllocator

/-! ## Lists -/

/-- A PrpList -/
structure PrpList where
  /-- The first entry, which is stored outside the list -/
  firstEntry : ℕ
  /-- The frame that contains the PrpList -/
  prpListFrame : ℕ
  /-- all pages and the frames they are mapped to used by this list -/
  mappings : List Mapping
  /-- the total number of entries within the list -/
  entryCount : ℕ
  deriving DecidableEq, Repr

namespace PrpList

/-- Write entries from a slot of a page on.  If the page is full, its last entry moves to a new page and
its last slot points there. -/
def fill : List ℕ → ℕ → ℕ → List Mapping → Prog MappingsAllocator MemError (List Mapping)
  | [], _, _, mappings => return mappings
  | entry :: entries, page, entriesInPage, mappings => do
    assert (PrpEntry.offset entry = 0)
    if entriesInPage = PAGE_ENTRY_COUNT then
      let mapping ← MappingsAllocator.allocate
      let a ← Prog.get
      let lastEntry := a.memory page (PAGE_ENTRY_COUNT - 1)
      Prog.modify (MappingsAllocator.write page (PAGE_ENTRY_COUNT - 1) mapping.frame)
      Prog.modify (MappingsAllocator.write mapping.page 0 lastEntry)
      Prog.modify (MappingsAllocator.write mapping.page 1 entry)
      fill entries mapping.page 2 (mappings ++ [mapping])
    else
      Prog.modify (MappingsAllocator.write page entriesInPage entry)
      fill entries page (entriesInPage + 1) mappings

/-- Constructs a list from its entries. -/
def new (entries : List ℕ) : Prog MappingsAllocator MemError PrpList := do
  assert (3 ≤ entries.length)
  let mapping ← MappingsAllocator.allocate
  let firstEntry ← expect entries.head?
  let mappings ← fill entries.tail mapping.page 0 [mapping]
  return ⟨firstEntry, mapping.frame, mappings, entries.length⟩
end PrpList

/-- A prp entry for a command: a list of prp entries or just one or two -/
inductive Prp where
  | list (l : PrpList)
  | entry (e : ℕ)
  | doubleEntry (e1 e2 : ℕ)
  deriving DecidableEq, Repr

namespace Prp

/-- The first prp entry for a command -/
def entry1 : Prp → ℕ
  | list l => l.firstEntry
  | entry e => e
  | doubleEntry e1 _ => e1

/-- The second prp entry for a command -/
def entry2 : Prp → ℕ
  | list l => l.prpListFrame
  | entry _ => 0
  | doubleEntry _ e2 => e2

def mappings : Prp → List Mapping
  | list l => l.mappings
  | entry _ => []
  | doubleEntry _ _ => []
end Prp

/-! ## The entries of a buffer -/

/-- A buffer in virtual memory. -/
structure Buffer where
  addr : ℕ
  len : ℕ
  deriving DecidableEq, Repr

namespace Buffer

/-- `Pages::from_ref`: the pages that contain a buffer -/
def pages (b : Buffer) : List ℕ :=
  let alignedPageCount := b.len / PAGE_SIZE + if b.len % PAGE_SIZE = 0 then 0 else 1
  let pageCount := if b.addr % PAGE_SIZE = 0 then alignedPageCount else alignedPageCount + 1
  (List.range pageCount).map fun i => (b.addr / PAGE_SIZE + i) * PAGE_SIZE
end Buffer

/-- The entries of some pages, the first of them from an offset on. -/
def prpEntries (translatePage : ℕ → Option ℕ) : List ℕ → ℕ → Checked (List ℕ)
  | [], _ => .ok []
  | page :: pages, offset =>
    match translatePage page with
    | none => .error .panic
    | some frame =>
      match PrpEntry.withOffset frame offset with
      | .error _ => .error .panic
      | .ok entry => do return entry :: (← prpEntries translatePage pages 0)

def createPrpFormBuffer (translatePage : ℕ → Option ℕ) (buffer : Buffer) :
    Prog MappingsAllocator MemError Prp := do
  let entries ← lift (prpEntries translatePage buffer.pages (buffer.addr % PAGE_SIZE))
  match entries with
  | [] => Prog.panic
  | [singleEntry] => return .entry singleEntry
  | [first, second] => return .doubleEntry first second
  | entries => Prp.list <$> PrpList.new entries
end Nvme
end WasabiOS
