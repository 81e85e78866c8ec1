import WasabiOS.Kernel.BlockRuns
import WasabiOS.Kernel.PageAllocator

/-!
# Kernel/PageRuns — what the page allocator's calls do to the free addresses

A **block** is a page or guard page, as an interval of addresses.  Every call that returns either takes
addresses out of the free set and hands out blocks of them, or puts the addresses of blocks back
(`run_alloc`, `run_free`).  What it takes are the blocks themselves, but

* an allocation at the front of an unaligned entry also takes the padding before it,
* `try_allocate_page` leaves the first byte of a page that has free addresses on both sides.

Neither lets two blocks overlap, as blocks are whole aligned pages: `exclusive_run`.
-/

open Machinery Prog IntervalList
namespace WasabiOS
open PageAllocator MemBlock List Finset Run
variable {a a' : PageAllocator} {count : UInt64} {headGuard tailGuard : Bool} {size : UInt64}
variable {S : PageSize}
namespace PageAllocator
variable {α : Type}

theorem pageRange_eq (page : Page S) : pageRange page = .ok page.range := by
  have hle := page.start_add_SIZE_le
  have hlast := S.toNat_SIZE_sub_one
  have hpos := S.SIZE_pos
  have hadd : page.start.toNat + (S.SIZE - 1).toNat < 2 ^ 64 := by omega
  simp only [pageRange, U64.sub_ok S.one_le_SIZE, ok_bind, U64.add_ok hadd]
  rfl

theorem wlp_onVaddrs {op : RangeSet 256 → Checked (α × RangeSet 256)}
    {Q : α → PageAllocator → Prop} {E : MemError → PageAllocator → Prop} :
    (onVaddrs op).wlp Q E a ↔ ∀ x v, op a.vaddrs = .ok (x, v) → Q x ⟨v⟩ := by
  rw [onVaddrs, wlp_zoom, wlp_stateful]

/-! ## Allocation -/

/-- **Bytes allocated** and covered with blocks. -/
theorem allocateFrom_wlp {align : UInt64} {build : VirtAddr → Checked α}
    {blocks : α → List MemBlock} (ha : RangeSet.Canonical a.vaddrs.entries)
    (hbuild : ∀ start x, build start = .ok x →
      MemBlock.Covers (blocks x) start.asU64.toNat (start.asU64.toNat + size.toNat)) :
    (allocateFrom size align >>= fun start => lift (build start)).wlp
      (fun x a' => MemBlock.HandsOut a.vaddrs (a.vaddrs.Unpadded size align .any) (blocks x) a'.vaddrs)
      (fun _ a' => a' = a ∧ a.vaddrs.Unpadded size align .any) a := by
  rw [wlp_bind, allocateFrom, wlp_bind, wlp_onVaddrs]
  intro o v halloc
  rcases allocatePrefer_handsOut ha (forall_mem_nil _) halloc with
    ⟨rfl, rfl, hunpadded⟩ | ⟨p, rfl, hout⟩
  · exact ⟨rfl, hunpadded⟩
  rw [wlp_lift]
  intro start hstart
  rw [wlp_lift]
  intro x hx
  refine hout (blocks x) ?_
  rw [← MemAddr.new_eq_ok hstart]
  exact hbuild start x hx
end PageAllocator

/-- The pages as blocks. -/
def Pages.blocks (pages : Pages S) : List MemBlock := consecutive S pages.firstPage.start.toNat pages.count.toNat

/-- A guard page as a block, if there is one. -/
def guardBlocks : Option (Page S) → List MemBlock
  | some guard => [guard.block]
  | none => []

/-- The pages and their guards as blocks. -/
def GuardedPages.blocks (g : GuardedPages S) : List MemBlock :=
  guardBlocks g.headGuard ++ (g.pages.blocks ++ guardBlocks g.tailGuard)

theorem Pages.covers_blocks (pages : Pages S) : MemBlock.Covers pages.blocks pages.firstPage.start.toNat
    (pages.firstPage.start.toNat + pages.count.toNat * S.SIZE.toNat) :=
  covers_consecutive pages.firstPage.block_aligned

namespace PageAllocator
variable {start : VirtAddr}

/-- The bytes of a guard page, if there is to be one. -/
def guardSize (guard : Bool) : ℕ := if guard then PageSize.Size4KiB.SIZE.toNat else 0

@[simp] theorem guardSize_true : guardSize true = PageSize.Size4KiB.SIZE.toNat := if_pos rfl

theorem addGuard_eq_ok {guard : Bool} {size' : UInt64} (h : addGuard guard size = .ok size') :
    size'.toNat = size.toNat + guardSize guard := by
  cases guard with
  | false =>
    cases h
    rfl
  | true =>
    rw [addGuard, if_pos rfl, U64.add_eq_ok] at h
    rw [guardSize_true, h]

theorem guardedSize_false : guardedSize S count false false = U64.mul S.SIZE count := by
  unfold guardedSize addGuard
  cases U64.mul S.SIZE count <;> rfl

theorem headGuardAt_covers {r : Option (Page .Size4KiB) × VirtAddr} (h : headGuardAt headGuard start = .ok r) :
    r.2.asU64.toNat = start.asU64.toNat + guardSize headGuard ∧
      MemBlock.Covers (guardBlocks r.1) start.asU64.toNat (start.asU64.toNat + guardSize headGuard) := by
  cases headGuard with
  | false =>
    cases h
    exact ⟨rfl, covers_nil _⟩
  | true =>
    obtain ⟨guard, hguard, h⟩ := bind_eq_ok.1 h
    obtain ⟨start', hadd, h⟩ := bind_eq_ok.1 h
    cases h
    rw [guardSize_true]
    refine ⟨MemAddr.add_eq_ok hadd, ?_⟩
    rw [← Aligned.fromStartAddress_eq_ok hguard]
    exact guard.covers_block

theorem tailGuardAt_covers {tail : Option (Page .Size4KiB)} (h : tailGuardAt tailGuard start = .ok tail) :
    MemBlock.Covers (guardBlocks tail) start.asU64.toNat (start.asU64.toNat + guardSize tailGuard) := by
  cases tailGuard with
  | false =>
    cases h
    exact covers_nil _
  | true =>
    obtain ⟨guard, hguard, h⟩ := bind_eq_ok.1 h
    cases h
    rw [guardSize_true, ← Aligned.fromStartAddress_eq_ok hguard]
    exact guard.covers_block

/-- **Pages with guards** cover what was allocated for them. -/
theorem guardedAt_covers {g : GuardedPages S} (hsize : guardedSize S count headGuard tailGuard = .ok size)
    (h : guardedAt S count headGuard tailGuard start = .ok g) :
    MemBlock.Covers g.blocks start.asU64.toNat (start.asU64.toNat + size.toNat) := by
  obtain ⟨n, hmul, hsize⟩ := bind_eq_ok.1 hsize
  obtain ⟨m, hhead, htail⟩ := bind_eq_ok.1 hsize
  obtain ⟨head, hheadAt, h⟩ := bind_eq_ok.1 h
  obtain ⟨firstPage, hfirst, h⟩ := bind_eq_ok.1 h
  obtain ⟨n', hmul', h⟩ := bind_eq_ok.1 h
  obtain ⟨start', hadd, h⟩ := bind_eq_ok.1 h
  obtain ⟨tail, htailAt, h⟩ := bind_eq_ok.1 h
  cases h
  cases Except.ok.inj (hmul.symm.trans hmul')
  obtain ⟨hbehind, hcovers1⟩ := headGuardAt_covers hheadAt
  have hcovers2 := (⟨firstPage, count⟩ : Pages S).covers_blocks
  have hcovers3 := tailGuardAt_covers htailAt
  have hpages := U64.mul_eq_ok.1 hmul
  have htotal := addGuard_eq_ok htail
  rw [addGuard_eq_ok hhead] at htotal
  have hfirst' : firstPage.start.toNat = head.2.asU64.toNat := by
    rw [← Aligned.fromStartAddress_eq_ok hfirst]
    rfl
  rw [hfirst', hbehind] at hcovers2
  rw [MemAddr.add_eq_ok hadd, hbehind, hpages, mul_comm] at hcovers3
  rw [htotal, hpages, mul_comm, show start.asU64.toNat + (count.toNat * S.SIZE.toNat
    + guardSize headGuard + guardSize tailGuard) = start.asU64.toNat + guardSize headGuard
    + count.toNat * S.SIZE.toNat + guardSize tailGuard by omega]
  exact hcovers1.append (hcovers2.append hcovers3)
end PageAllocator

/-- A call on the page allocator. -/
inductive PageCall where
  | tryAllocatePage {S : PageSize} (page : Page S)
  | allocatePage (S : PageSize)
  | allocatePages (S : PageSize) (count : UInt64)
  | allocateGuardedPages (S : PageSize) (count : UInt64) (headGuard tailGuard : Bool)
  | freePage {S : PageSize} (page : Page S)
  | freePages {S : PageSize} (pages : Pages S)
  | freeGuardedPages {S : PageSize} (pages : GuardedPages S)

namespace PageCall
open PageAllocator

/-- The call, with the blocks it hands out. -/
def run : PageCall → Prog PageAllocator MemError (List MemBlock)
  | .tryAllocatePage page => do
    PageAllocator.tryAllocatePage page
    return [page.block]
  | .allocatePage S => do return [(← PageAllocator.allocatePage S).block]
  | .allocatePages S count => do return (← PageAllocator.allocatePages S count).blocks
  | .allocateGuardedPages S count headGuard tailGuard => do
    return (← PageAllocator.allocateGuardedPages S count headGuard tailGuard).blocks
  | .freePage page => do
    PageAllocator.freePage page
    return []
  | .freePages pages => do
    PageAllocator.freePages pages
    return []
  | .freeGuardedPages pages => do
    PageAllocator.freeGuardedPages pages
    return []

/-- The blocks the call gives back. -/
def freed : PageCall → List MemBlock
  | .freePage page => [page.block]
  | .freePages pages => pages.blocks
  | .freeGuardedPages pages => pages.blocks
  | _ => []

/-- **The call loses no address**: an allocation finds an entry with room that starts aligned, and a page
asked for is not free on both sides. -/
def Lossless : PageCall → PageAllocator → Prop
  | .tryAllocatePage page, a =>
    page.block.addrs ⊆ a.vaddrs.addrs → ¬ RangeSet.Enclosed a.vaddrs.addrs page.range
  | .allocatePage S, a => a.vaddrs.Unpadded S.SIZE S.SIZE .any
  | .allocatePages S count, a =>
    ∀ size, U64.mul S.SIZE count = .ok size → a.vaddrs.Unpadded size S.SIZE .any
  | .allocateGuardedPages S count headGuard tailGuard, a =>
    ∀ size align, guardedSize S count headGuard tailGuard = .ok size →
      guardedAlign S headGuard = .ok align → a.vaddrs.Unpadded size align .any
  | _, _ => True
end PageCall

namespace PageAllocator
variable {page : Page S}

theorem allocatePage_wlp (ha : RangeSet.Canonical a.vaddrs.entries) : (allocatePage S).wlp
      (fun page a' => MemBlock.HandsOut a.vaddrs (PageCall.Lossless (.allocatePage S) a) [page.block] a'.vaddrs)
      (fun _ a' => a' = a ∧ PageCall.Lossless (.allocatePage S) a) a := by
  refine allocateFrom_wlp ha fun start page hpage => ?_
  rw [← Aligned.fromStartAddress_eq_ok hpage]
  exact page.covers_block

theorem allocatePages_wlp (ha : RangeSet.Canonical a.vaddrs.entries) : (allocatePages S count).wlp (fun pages a' =>
        MemBlock.HandsOut a.vaddrs (PageCall.Lossless (.allocatePages S count) a) pages.blocks a'.vaddrs)
      (fun _ a' => a' = a ∧ PageCall.Lossless (.allocatePages S count) a) a := by
  rw [allocatePages, wlp_bind, wlp_lift]
  intro size hsize
  have hlossless : PageCall.Lossless (.allocatePages S count) a ↔ a.vaddrs.Unpadded size S.SIZE .any :=
    ⟨fun h => h size hsize, fun h size' hsize' => Except.ok.inj (hsize.symm.trans hsize') ▸ h⟩
  simp only [hlossless]
  refine allocateFrom_wlp ha fun start pages hpages => ?_
  obtain ⟨page, hpage, hpages⟩ := bind_eq_ok.1 hpages
  cases hpages
  rw [← Aligned.fromStartAddress_eq_ok hpage, U64.mul_eq_ok.1 hsize, mul_comm]
  exact (⟨page, count⟩ : Pages S).covers_blocks

theorem allocateGuardedPages_wlp (ha : RangeSet.Canonical a.vaddrs.entries) :
    (allocateGuardedPages S count headGuard tailGuard).wlp (fun pages a' => MemBlock.HandsOut a.vaddrs
        (PageCall.Lossless (.allocateGuardedPages S count headGuard tailGuard) a) pages.blocks a'.vaddrs)
      (fun _ a' => a' = a ∧ PageCall.Lossless (.allocateGuardedPages S count headGuard tailGuard) a)
      a := by
  unfold allocateGuardedPages
  split
  case isTrue hnone =>
    obtain ⟨rfl, rfl⟩ : headGuard = false ∧ tailGuard = false := by simpa using hnone
    have hlossless : PageCall.Lossless (.allocateGuardedPages S count false false) a ↔
        PageCall.Lossless (.allocatePages S count) a :=
      ⟨fun h size hsize => h size S.SIZE (guardedSize_false.trans hsize) rfl, fun h size align hsize halign =>
          Except.ok.inj halign ▸ h size (guardedSize_false.symm.trans hsize)⟩
    rw [wlp_bind]
    simp only [hlossless]
    refine wlp_mono (allocatePages_wlp ha) (fun pages a' h => ?_) fun _ _ h => h
    rw [wlp_pure, GuardedPages.blocks, guardBlocks, nil_append, append_nil]
    exact h
  case isFalse =>
    rw [wlp_bind, wlp_lift]
    intro size hsize
    rw [wlp_bind, wlp_lift]
    intro align halign
    have hlossless : PageCall.Lossless (.allocateGuardedPages S count headGuard tailGuard) a ↔
        a.vaddrs.Unpadded size align .any :=
      ⟨fun h => h size align hsize halign, fun h size' align' hsize' halign' =>
        Except.ok.inj (hsize.symm.trans hsize') ▸ Except.ok.inj (halign.symm.trans halign') ▸ h⟩
    simp only [hlossless]
    exact allocateFrom_wlp ha fun start pages hpages => guardedAt_covers hsize hpages

/-- What `remove_if_exist` takes for a page. -/
theorem handsOut_taken {v : RangeSet 256} (hin : page.block.addrs ⊆ a.vaddrs.addrs) (hv : RangeSet.Canonical v.entries)
    (haddrs : v.addrs = a.vaddrs.addrs \ RangeSet.taken a.vaddrs.addrs page.range) :
    MemBlock.HandsOut a.vaddrs (PageCall.Lossless (.tryAllocatePage page) a) [page.block] v := by
  have howned := page.covers_block.owned
  have hlo : page.range.lo = page.block.start := rfl
  have htaken : RangeSet.taken a.vaddrs.addrs page.range =
      if RangeSet.Enclosed a.vaddrs.addrs page.range then page.block.addrs.erase page.block.start
      else page.block.addrs := by
    rw [RangeSet.taken, page.range_addrs, hlo]
  have hsub : RangeSet.taken a.vaddrs.addrs page.range ⊆ page.block.addrs := by
    rw [htaken]
    split
    case isTrue => exact erase_subset _ _
    case isFalse => exact Finset.Subset.refl _
  have halmost : page.block.addrs.erase page.block.start ⊆ RangeSet.taken a.vaddrs.addrs page.range := by
    rw [htaken]
    split
    case isTrue => exact Finset.Subset.refl _
    case isFalse => exact erase_subset _ _
  refine ⟨hv, _, ⟨?_, page.covers_block.exclusive, page.covers_block.aligned, hsub.trans hin, ?_⟩, haddrs, ?_⟩
  · rwa [Pool.owned_cons, Pool.owned_nil, union_empty]
  · intro u hu
    rw [List.mem_singleton.1 hu]
    exact halmost
  · rw [Pool.owned_cons, Pool.owned_nil, Finset.union_empty, htaken]
    by_cases h : RangeSet.Enclosed a.vaddrs.addrs page.range
    · rw [if_pos h]
      exact iff_of_false (fun hl => hl hin h) fun heq => erase_eq_self.1 heq start_mem_addrs
    · rw [if_neg h]
      exact iff_of_true (fun _ => h) rfl

/-- **`try_allocate_page`** takes a free page, but for its first byte if the addresses on both sides are
free, and refuses any other. -/
theorem tryAllocatePage_wlp (ha : RangeSet.Canonical a.vaddrs.entries) : (tryAllocatePage page).wlp
      (fun _ a' => page.block.addrs ⊆ a.vaddrs.addrs ∧
        MemBlock.HandsOut a.vaddrs (PageCall.Lossless (.tryAllocatePage page) a) [page.block] a'.vaddrs)
      (fun _ a' => a' = a ∧ (page.start = 0 ∨ ¬ page.block.addrs ⊆ a.vaddrs.addrs)) a := by
  unfold tryAllocatePage
  split
  case isTrue hzero => exact ⟨rfl, Or.inl hzero⟩
  case isFalse =>
    rw [wlp_bind, wlp_lift, pageRange_eq]
    intro range hrange
    cases hrange
    rw [wlp_bind, wlp_onVaddrs]
    intro removed v hremove
    rcases RangeSet.removeIfExist_eq ha page.range_long with ⟨hout, heq⟩ | ⟨hin, l, hl, hcover, heq⟩
    · rw [page.range_addrs] at hout
      cases heq.symm.trans hremove
      exact ⟨rfl, Or.inr hout⟩
    · rw [page.range_addrs] at hin
      obtain ⟨v', hentries, hremove⟩ := bind_eq_ok.1 (heq.symm.trans hremove)
      cases hremove
      cases RangeSet.ofEntries_eq_ok.1 hentries
      exact ⟨hin, handsOut_taken hin hl hcover⟩

theorem tryAllocatePage_returns (ha : RangeSet.Canonical a.vaddrs.entries)
    (hlen : a.vaddrs.len < 256) : (tryAllocatePage page).wp (fun _ _ => True) (fun _ _ => True) a := by
  unfold tryAllocatePage
  split
  case isTrue => trivial
  case isFalse =>
    rw [wp_bind, wp_lift, pageRange_eq]
    refine ⟨page.range, rfl, ?_⟩
    obtain ⟨⟨removed, v⟩, hremove⟩ := RangeSet.removeIfExist_returns ha page.range_long hlen
    rw [wp_bind, onVaddrs, wp_zoom, wp_of_ok (stateful_eq_ok.2 hremove)]
    cases removed with
    | true => trivial
    | false => trivial

/-! ## Frees -/

theorem freePage_wlp (ha : RangeSet.Canonical a.vaddrs.entries) :
    (freePage page).wlp (fun _ a' => MemBlock.GivesBack a.vaddrs [page.block] a'.vaddrs) (fun _ _ => False) a := by
  rw [freePage, wlp_bind, wlp_lift, pageRange_eq]
  intro range hrange
  cases hrange
  rw [wlp_onVaddrs]
  intro _ v hinsert
  obtain ⟨v', hinsert, h⟩ := bind_eq_ok.1 hinsert
  cases h
  exact page.insert_givesBack ha hinsert

theorem freePagesFrom_wlp {firstPage : Page S} {index n : ℕ} (hn : index + n ≤ 2 ^ 64)
    (ha : RangeSet.Canonical a.vaddrs.entries) :
    (freePagesFrom firstPage index n).wlp (fun _ a' => MemBlock.GivesBack a.vaddrs
        (consecutive S (firstPage.start.toNat + index * S.SIZE.toNat) n) a'.vaddrs)
      (fun _ _ => False) a := by
  induction n generalizing index a with
  | zero => exact givesBack_nil ha
  | succ n ih =>
    rw [freePagesFrom, wlp_bind, wlp_lift]
    intro page hpage
    rw [wlp_bind]
    refine wlp_mono (freePage_wlp ha) (fun _ a' h => ?_) fun _ _ h => h
    refine wlp_mono (ih (by omega) h.canonical) (fun _ a'' h' => ?_) fun _ _ h => h
    have hstart := Aligned.add_eq_ok hpage
    rw [UInt64.toNat_ofNat_of_lt' (by change index < 2 ^ 64; omega)] at hstart
    have hall := h.append h'
    rw [Aligned.block, hstart] at hall
    rw [Nat.succ_mul, ← add_assoc] at hall
    exact hall

section
variable (ha : RangeSet.Canonical a.vaddrs.entries)
include ha

theorem freePages_wlp {pages : Pages S} :
    (freePages pages).wlp (fun _ a' => MemBlock.GivesBack a.vaddrs pages.blocks a'.vaddrs) (fun _ _ => False) a := by
  have hcount : 0 + pages.count.toNat ≤ 2 ^ 64 := by
    have := pages.count.toNat_lt
    omega
  rw [Pages.blocks, ← add_zero pages.firstPage.start.toNat, ← zero_mul S.SIZE.toNat]
  exact freePagesFrom_wlp hcount ha

theorem freeGuard_wlp {guard : Option (Page S)} :
    (freeGuard guard).wlp (fun _ a' => MemBlock.GivesBack a.vaddrs (guardBlocks guard) a'.vaddrs)
      (fun _ _ => False) a := by
  cases guard with
  | none => exact givesBack_nil ha
  | some guard => exact freePage_wlp ha

theorem freeGuardedPages_wlp {pages : GuardedPages S} :
    (freeGuardedPages pages).wlp (fun _ a' => MemBlock.GivesBack a.vaddrs pages.blocks a'.vaddrs)
      (fun _ _ => False) a := by
  rw [freeGuardedPages, wlp_bind]
  refine wlp_mono (freePages_wlp ha) (fun _ a1 h1 => ?_) fun _ _ h => h
  rw [wlp_bind]
  refine wlp_mono (freeGuard_wlp h1.canonical) (fun _ a2 h2 => ?_) fun _ _ h => h
  refine wlp_mono (freeGuard_wlp h2.canonical) (fun _ a3 h3 => ?_) fun _ _ h => h
  refine ((h1.append h2).append h3).perm ?_
  -- the pages are freed before the guard in front of them
  rw [GuardedPages.blocks, ← append_assoc]
  exact perm_append_comm.append_right _
end
end PageAllocator

namespace PageCall
open PageAllocator

/-- **Every call of the page allocator has an effect.** -/
theorem effects : MemBlock.Effects vaddrs run freed Lossless := by
  intro c a ha
  cases c with
  | tryAllocatePage page =>
    rw [run, wlp_bind]
    refine wlp_mono (tryAllocatePage_wlp ha) (fun _ a' h => .take rfl h.2) ?_
    rintro _ _ ⟨rfl, hrefused⟩
    refine .take rfl (handsOut_nil ha fun hin => ?_)
    rcases hrefused with hzero | hout
    · have hlo : page.range.lo = (0 : UInt64).toNat := congrArg UInt64.toNat hzero
      exact fun henclosed => absurd henclosed.1 (hlo ▸ lt_irrefl 0)
    · exact absurd hin hout
  | allocatePage S =>
    rw [run, wlp_bind]
    refine wlp_mono (allocatePage_wlp ha) (fun _ a' h => .take rfl h) ?_
    rintro _ _ ⟨rfl, hl⟩
    exact .take rfl (handsOut_nil ha hl)
  | allocatePages S count =>
    rw [run, wlp_bind]
    refine wlp_mono (allocatePages_wlp ha) (fun _ a' h => .take rfl h) ?_
    rintro _ _ ⟨rfl, hl⟩
    exact .take rfl (handsOut_nil ha hl)
  | allocateGuardedPages S count headGuard tailGuard =>
    rw [run, wlp_bind]
    refine wlp_mono (allocateGuardedPages_wlp ha) (fun _ a' h => .take rfl h) ?_
    rintro _ _ ⟨rfl, hl⟩
    exact .take rfl (handsOut_nil ha hl)
  | freePage page =>
    rw [run, wlp_bind]
    exact wlp_mono (freePage_wlp ha) (fun _ a' h => .give rfl h trivial) fun _ _ h => h.elim
  | freePages pages =>
    rw [run, wlp_bind]
    exact wlp_mono (freePages_wlp ha) (fun _ a' h => .give rfl h trivial) fun _ _ h => h.elim
  | freeGuardedPages pages =>
    rw [run, wlp_bind]
    exact wlp_mono (freeGuardedPages_wlp ha) (fun _ a' h => .give rfl h trivial) fun _ _ h => h.elim
end PageCall

/-- The page allocator, as its calls see it. -/
def pageSystem : Pool.System PageAllocator PageCall MemBlock := system vaddrs PageCall.run PageCall.freed

/-- **Exclusivity**: whatever is allocated and freed, no two of the pages and guard pages held share an
address.  `try_allocate_page` succeeds exactly if all of the page is free, and returns if an entry of the
range set is unused. -/
theorem exclusive_run {a : PageAllocator} {calls : List PageCall} {s : Pool.State PageAllocator MemBlock}
    (ha : RangeSet.Canonical a.vaddrs.entries) (hzero : 0 ∉ a.vaddrs.addrs)
    (hlegal : Along (Pool.step pageSystem) (Pool.Legal pageSystem) calls ⟨a, []⟩)
    (hs : s ∈ runFrom (Pool.step pageSystem) calls ⟨a, []⟩) :
    Pool.Exclusive addrs s.live ∧ ∀ (S : PageSize) (page : Page S),
        (tryAllocatePage page).wlp (fun _ _ => page.block.addrs ⊆ s.alloc.vaddrs.addrs)
          (fun _ _ => ¬ page.block.addrs ⊆ s.alloc.vaddrs.addrs) s.alloc ∧
        (s.alloc.vaddrs.len < 256 → (tryAllocatePage page).wp (fun _ _ => True) (fun _ _ => True) s.alloc) := by
  have hheld := held_run PageCall.effects ha hlegal hs
  refine ⟨hheld.exclusive, fun S page => ⟨?_, tryAllocatePage_returns hheld.canonical⟩⟩
  refine wlp_mono (tryAllocatePage_wlp hheld.canonical) (fun _ _ h => h.1) ?_
  rintro _ _ ⟨-, hpage | hout⟩
  · intro hin
    have hstart : page.block.start = 0 := congrArg UInt64.toNat hpage
    exact hzero (hstart ▸ hheld.free (hin start_mem_addrs))
  · exact hout

theorem low_vaddrs_le : [(⟨8192, 65535⟩ : Range)].length ≤ 256 := by decide

/-- The pages from the third to the sixteenth are free. -/
def lowPages : PageAllocator := ⟨⟨[⟨8192, 65535⟩], low_vaddrs_le⟩⟩

theorem isCanonical_0x4000 : IsCanonical (0x4000 : UInt64).toNat := by decide

theorem aligned_0x4000 : PageSize.Size4KiB.SIZE.toNat ∣ (0x4000 : UInt64).toNat := by decide

/-- The fifth page. -/
def page0x4000 : Page .Size4KiB := ⟨⟨0x4000, isCanonical_0x4000⟩, aligned_0x4000⟩

theorem zero_not_mem_lowPages : 0 ∉ lowPages.vaddrs.addrs := by
  intro h
  obtain ⟨e, he, hlo, -⟩ := IntervalList.mem_cover.1 h
  cases List.mem_singleton.1 he
  exact absurd hlo (by decide)

theorem exclusive_run_lowPages : ∃ s ∈ runFrom (Pool.step pageSystem)
    [.tryAllocatePage page0x4000, .allocatePages .Size4KiB 2] ⟨lowPages, []⟩,
    s.live = [⟨.Size4KiB, 0x2000⟩, ⟨.Size4KiB, 0x3000⟩, ⟨.Size4KiB, 0x4000⟩] ∧
      Pool.Exclusive addrs s.live := by
  refine ⟨_, rfl, by decide +kernel, ?_⟩
  have hlegal : Along (Pool.step pageSystem) (Pool.Legal pageSystem)
      [.tryAllocatePage page0x4000, .allocatePages .Size4KiB 2] ⟨lowPages, []⟩ :=
    ⟨nil_subperm, fun _ _ => ⟨nil_subperm, fun _ _ => trivial⟩⟩
  exact (exclusive_run (by decide) zero_not_mem_lowPages hlegal rfl).1
end WasabiOS
