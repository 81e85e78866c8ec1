import Mathlib.Tactic.IntervalCases
import WasabiOS.Kernel.InitEvents
import WasabiOS.Kernel.PageRuns

/-!
# Kernel/InitExact — when `page_allocator::init` is exact

`init` should leave free exactly the addresses that are not mapped, not in the window of the recursive
mapping and not in the trampoline page, and should read nothing but page tables (`InitIsExact`).  It does
exactly if (`ExactCondition`)

* the recursive index is between 1 and 255, so that the addresses of the tables are canonical and the
  trampoline page is not one of them,
* the trampoline page is free when it is reserved, and not free on both sides,
* no page outside the window is mapped with bit 7, as the walk passes over those,
* the last page of the window is mapped, as the range of the window ends with the first byte of it,
* what the huge entries point at are page tables, as the walk reads it,
* the free ranges fit into the range set at each step of the walk.
-/

open Machinery Prog IntervalList
namespace WasabiOS
open PageIndices RangeSet Event RecursivePageTable Nat
variable {t : RecursivePageTable} {x : ℕ} {huge present : Bool} {L : List Range} {l3 l4 : PageTableIndex}
  {g : PageTableIndex → List Range} {r : Range} {frame : ℕ} {w : Walk} {p : PageIndices}

namespace RecursivePageTable
variable {l4 l3 l2 : PageTableIndex}

/-! ## The addresses of the mappings -/

/-- The walk takes the page out. -/
def Removed (t : RecursivePageTable) (p : PageIndices) : Prop := t.Mapped p ∧ ¬ t.MappedWithBit7 p

theorem removed_iff : t.Removed p ↔
    (t.entry4 p.l4).isPresent ∧ (t.entry3 p.l4 p.l3).isPresent ∧ ((t.entry3 p.l4 p.l3).isHuge ∨
      (t.entry2 p.l4 p.l3 p.l2).isPresent ∧ ((t.entry2 p.l4 p.l3 p.l2).isHuge ∨
        (t.entry1 p.l4 p.l3 p.l2 p.l1).isPresent ∧ ¬ (t.entry1 p.l4 p.l3 p.l2 p.l1).isHuge)) := by
  rw [Removed, mapped_iff, MappedWithBit7]
  tauto

theorem mem_cover_flatMap : x ∈ coverOf (PageTableIndex.all.flatMap g) ↔ ∃ i, x ∈ coverOf (g i) := by
  simp only [mem_cover, List.mem_flatMap, PageTableIndex.mem_all, true_and]
  constructor
  · rintro ⟨r, ⟨i, hr⟩, hx⟩
    exact ⟨i, r, hr, hx⟩
  · rintro ⟨i, r, hr, hx⟩
    exact ⟨r, ⟨i, hr⟩, hx⟩

/-- What an entry maps. -/
theorem mem_cover_entry : x ∈ coverOf (if present then if huge then [r] else L else []) ↔
      present ∧ (huge ∧ x ∈ r.addrs ∨ ¬ huge ∧ x ∈ coverOf L) := by
  cases present <;> cases huge <;> simp [Range.mem_addrs]

theorem mem_leaves1 : x ∈ coverOf (t.leaves1 l4 l3 l2) ↔
    ∃ l1, x / 2 ^ 12 = number ⟨l4, l3, l2, l1⟩ ∧ (t.entry1 l4 l3 l2 l1).isPresent ∧
      ¬ (t.entry1 l4 l3 l2 l1).isHuge := by
  rw [leaves1, mem_cover_flatMap]
  refine exists_congr fun l1 => ?_
  rw [← mem_mappingRange_4KiB]
  cases (t.entry1 l4 l3 l2 l1).isPresent <;> cases (t.entry1 l4 l3 l2 l1).isHuge <;>
    simp [Range.mem_addrs]

theorem mem_leaves2 : x ∈ coverOf (t.leaves2 l4 l3) ↔
    ∃ l2, (t.entry2 l4 l3 l2).isPresent ∧ ((t.entry2 l4 l3 l2).isHuge ∧ x / 2 ^ 21 = (l4 * 512 + l3) * 512 + l2 ∨
      ¬ (t.entry2 l4 l3 l2).isHuge ∧ x ∈ coverOf (t.leaves1 l4 l3 l2)) := by
  rw [leaves2, mem_cover_flatMap]
  simp only [mem_cover_entry, mem_mappingRange_2MiB]

theorem mem_leaves3 : x ∈ coverOf (t.leaves3 l4) ↔
    ∃ l3, (t.entry3 l4 l3).isPresent ∧ ((t.entry3 l4 l3).isHuge ∧ x / 2 ^ 30 = l4 * 512 + l3 ∨
      ¬ (t.entry3 l4 l3).isHuge ∧ x ∈ coverOf (t.leaves2 l4 l3)) := by
  rw [leaves3, mem_cover_flatMap]
  simp only [mem_cover_entry, mem_mappingRange_1GiB]

/-- **The mappings cover the pages removed.** -/
theorem mem_leaves : x ∈ coverOf t.leaves ↔ ∃ p : PageIndices, x / 2 ^ 12 = p.number ∧ t.Removed p := by
  have h4 : x ∈ coverOf t.leaves ↔ ∃ l4, (t.entry4 l4).isPresent ∧ x ∈ coverOf (t.leaves3 l4) := by
    rw [leaves, mem_cover_flatMap]
    refine exists_congr fun l4 => ?_
    cases (t.entry4 l4).isPresent <;> simp
  rw [h4]
  simp only [mem_leaves3, mem_leaves2, mem_leaves1, removed_iff]
  constructor
  · rintro ⟨l4, hp4, l3, hp3, ⟨hh3, hx⟩ | ⟨-, l2, hp2, ⟨hh2, hx⟩ | ⟨-, l1, hx, hp1⟩⟩⟩
    · refine ⟨⟨l4, l3, Fin.ofNat 512 (x / 2 ^ 21), Fin.ofNat 512 (x / 2 ^ 12)⟩, ?_, hp4, hp3, Or.inl hh3⟩
      simp only [number, Fin.ofNat]
      omega
    · refine ⟨⟨l4, l3, l2, Fin.ofNat 512 (x / 2 ^ 12)⟩, ?_, hp4, hp3, Or.inr ⟨hp2, Or.inl hh2⟩⟩
      simp only [number, Fin.ofNat]
      omega
    · exact ⟨⟨l4, l3, l2, l1⟩, hx, hp4, hp3, Or.inr ⟨hp2, Or.inr hp1⟩⟩
  · rintro ⟨⟨l4, l3, l2, l1⟩, hx, hp4, hp3, h⟩
    refine ⟨l4, hp4, l3, hp3, ?_⟩
    cases hh3 : (t.entry3 l4 l3).isHuge with
    | true =>
      refine Or.inl ⟨rfl, ?_⟩
      simp only [number] at hx
      omega
    | false =>
      obtain ⟨hp2, h⟩ := h.resolve_left (Bool.eq_false_iff.1 hh3)
      refine Or.inr ⟨Bool.false_ne_true, l2, hp2, ?_⟩
      cases hh2 : (t.entry2 l4 l3 l2).isHuge with
      | true =>
        refine Or.inl ⟨rfl, ?_⟩
        simp only [number] at hx
        omega
      | false => exact Or.inr ⟨Bool.false_ne_true, l1, hx, h.resolve_left (Bool.eq_false_iff.1 hh2)⟩

theorem mem_leaves_iff (hx : x < 2 ^ 48) : x ∈ coverOf t.leaves ↔ t.Removed (ofAddr x) := by
  rw [mem_leaves]
  constructor
  · rintro ⟨p, hp, hremoved⟩
    rwa [(ofAddr_eq_iff p hx).2 hp]
  · exact fun h => ⟨_, (number_ofAddr hx).symm, h⟩

/-! ## The window -/

/-- The range of the recursive mapping that is taken out. -/
def window (t : RecursivePageTable) : Range :=
  ⟨vaddr ⟨t.recursiveIndex, 0, 0, 0⟩, vaddr ⟨t.recursiveIndex, 511, 511, 511⟩⟩

/-- The last page of the recursive mapping. -/
def lastPage (t : RecursivePageTable) : PageIndices := ⟨t.recursiveIndex, 511, 511, 511⟩

theorem window_lo : t.window.lo = t.recursiveIndex * 2 ^ 39 := by
  change (vaddr ⟨t.recursiveIndex, 0, 0, 0⟩).toNat = _
  rw [toNat_vaddr]
  simp only [number, Fin.val_zero, add_zero, mul_assoc, reduceMul, reducePow]

theorem window_past : t.window.past = t.lastPage.number * 4096 + 1 := by
  change (vaddr ⟨t.recursiveIndex, 511, 511, 511⟩).toNat + 1 = _
  rw [toNat_vaddr]
  rfl

theorem lastPage_number : t.lastPage.number = t.recursiveIndex * 2 ^ 27 + (2 ^ 27 - 1) := by
  have h511 : ((511 : PageTableIndex) : ℕ) = 511 := rfl
  simp only [lastPage, number, h511]
  omega

theorem window_proper : t.window.Proper := by
  unfold Range.Proper
  rw [window_lo, window_past, lastPage_number]
  omega

theorem l4_ofAddr (hx : x < 2 ^ 48) : ((ofAddr x).l4 : ℕ) = x / 2 ^ 39 := by
  have hn := number_ofAddr hx
  simp only [number] at hn
  omega

/-- The window, but for the last bytes of its last page. -/
theorem mem_window (hx : x < 2 ^ 48) : x ∈ t.window.addrs ↔ (ofAddr x).l4 = t.recursiveIndex ∧
      (ofAddr x = t.lastPage → x = t.lastPage.number * 4096) := by
  rw [Range.mem_addrs, window_lo, window_past, ofAddr_eq_iff _ hx, lastPage_number, Fin.ext_iff, l4_ofAddr hx]
  generalize (t.recursiveIndex : ℕ) = R
  omega
end RecursivePageTable

/-! ## What `init` does -/

/-- `RangeSet::new()`, and no table read yet. -/
def Walk.start : Walk := ⟨⟨[], zero_le _⟩, []⟩

/-- All addresses of `init`. -/
def allAddrs : Finset ℕ := Finset.Ico 8192 (2 ^ 48)

theorem all_vaddrs_le : [(⟨8192, MAX_VIRT_ADDR⟩ : Range)].length ≤ 256 := by decide

/-- The range set with all addresses. -/
def allVaddrs : RangeSet 256 := ⟨[⟨8192, MAX_VIRT_ADDR⟩], all_vaddrs_le⟩

theorem allVaddrs_canonical : RangeSet.Canonical allVaddrs.entries := by decide

theorem allVaddrs_addrs : allVaddrs.addrs = allAddrs := by
  rw [addrs, allVaddrs, coverOf_cons]
  exact Finset.union_empty _

theorem runs_allAddrs : runs allAddrs = 1 := by
  rw [← allVaddrs_addrs, addrs, ← allVaddrs_canonical.length_eq]
  rfl

theorem runs_allAddrs_le : runs allAddrs ≤ 256 := runs_allAddrs ▸ (by decide)

/-- **Reserving a page** takes it out if it is free and what is left fits. -/
theorem reservePages_spec {S : PageSize} (page : Page S)
    (hw : RangeSet.Canonical w.vaddrs.entries) (hstart : page.start ≠ 0) :
    (page.block.addrs ⊆ w.vaddrs.addrs ∧ ∃ v : RangeSet 256, RangeSet.Canonical v.entries ∧
      v.addrs = w.vaddrs.addrs \ taken w.vaddrs.addrs page.range ∧
      reservePages page w = .ok () ⟨v, w.tables⟩) ∨
    ((page.block.addrs ⊆ w.vaddrs.addrs → 256 < runs (w.vaddrs.addrs \ taken w.vaddrs.addrs page.range)) ∧
      ∃ f, reservePages page w = .fault f) := by
  have hrun : reservePages page w = match w.vaddrs.removeIfExist page.range with
      | .ok (true, v) => .ok () ⟨v, w.tables⟩
      | .ok (false, _) => .fault .panic
      | .error f => .fault f := by
    have htry : PageAllocator.tryAllocatePage page ⟨w.vaddrs⟩ =
        match w.vaddrs.removeIfExist page.range with
        | .ok (true, v) => .ok () ⟨v⟩
        | .ok (false, v) => .err .pageInUse ⟨v⟩
        | .error f => .fault f := by
      rw [PageAllocator.tryAllocatePage, if_neg hstart, PageAllocator.pageRange_eq, lift_ok,
        pure_bind, bind_apply, PageAllocator.onVaddrs, zoom, stateful]
      rcases w.vaddrs.removeIfExist page.range with f | ⟨_ | _, v⟩ <;> rfl
    rw [reservePages, bind_apply, zoom, attempt, htry]
    rcases w.vaddrs.removeIfExist page.range with f | ⟨_ | _, v⟩ <;> rfl
  rw [hrun]
  rcases removeIfExist_eq hw page.range_long with ⟨hout, heq⟩ | ⟨hin, l, hl, hcover, heq⟩
  · rw [page.range_addrs] at hout
    rw [heq]
    exact Or.inr ⟨fun hin => absurd hin hout, _, rfl⟩
  rw [page.range_addrs] at hin
  have hlen : l.length = runs (w.vaddrs.addrs \ taken w.vaddrs.addrs page.range) := by rw [hl.length_eq, hcover]
  by_cases hroom : l.length ≤ 256
  · rw [heq, ofEntries_ok hroom]
    exact Or.inl ⟨hin, ⟨l, hroom⟩, hl, hcover, rfl⟩
  · rw [heq, ofEntries, dif_neg hroom]
    exact Or.inr ⟨fun _ => hlen ▸ not_le.1 hroom, _, rfl⟩

namespace RecursivePageTable

/-- A recursive index from 256 on makes addresses that are not canonical. -/
theorem recurse_ne_ok (hR : 256 ≤ t.recursiveIndex.val) (w w' : Walk) :
    recursePageTablesRemoveMapped t 4 (t.memory t.level4)
      ⟨t.recursiveIndex, t.recursiveIndex, t.recursiveIndex, t.recursiveIndex⟩ w ≠ .ok () w' := by
  refine forEach_ne_ok (i := t.recursiveIndex) (fun s s' => ?_) (PageTableIndex.mem_all _) w w'
  have hnot : ¬ IsCanonical (vaddr ⟨t.recursiveIndex, t.recursiveIndex, t.recursiveIndex, t.recursiveIndex⟩).toNat := by
    simp only [toNat_vaddr, IsCanonical, number]
    omega
  have hhuge : (t.memory t.level4 t.recursiveIndex).isHuge = false := t.reserved _
  rw [visitEntry, t.present, hhuge]
  simp [rotateLeft, Walk.deref, hnot]

theorem pageTableRange_eq (hR : t.recursiveIndex.val < 256) : pageTableRange t = .ok t.window := by
  have hcanonical : ∀ l3 l2 l1, IsCanonical (vaddr ⟨t.recursiveIndex, l3, l2, l1⟩).toNat := by
    intro l3 l2 l1
    left
    simp only [toNat_vaddr, number]
    omega
  simp only [pageTableRange, MemAddr.new, dif_pos (hcanonical _ _ _), ok_bind]
  rfl

/-- The steps of `init` after all addresses have been inserted. -/
theorem initAllocator_start : initAllocator t Walk.start = (do
    recursePageTablesRemoveMapped t 4 (t.memory t.level4)
      ⟨t.recursiveIndex, t.recursiveIndex, t.recursiveIndex, t.recursiveIndex⟩
    Walk.remove (← lift (pageTableRange t))
    reservePages trampolinePage) (⟨allVaddrs, []⟩ : Walk) := rfl

/-- The events of `init`. -/
def initEvents (t : RecursivePageTable) : List Event := t.events ++ [.remove t.window]

/-- **`init`** is a list of events and the reservation of the trampoline page. -/
theorem initAllocator_eq (hR : t.recursiveIndex.val < 256) : initAllocator t Walk.start =
    (runAll t.initEvents >>= fun _ => reservePages trampolinePage) (⟨allVaddrs, []⟩ : Walk) := by
  rw [initAllocator_start, recurse_eq hR, pageTableRange_eq hR, initEvents, runAll, runAll,
    forEach_append, forEach_singleton, bind_assoc]
  rfl

/-- The free addresses when the trampoline page is reserved. -/
def unreserved (t : RecursivePageTable) : Finset ℕ := (allAddrs \ coverOf t.leaves) \ t.window.addrs

theorem initEvents_proper (h : r ∈ removals t.initEvents) : r.Proper := by
  rw [initEvents, removals_append] at h
  rcases List.mem_append.1 h with h | h
  · exact removals_events_proper h
  · exact List.mem_singleton.1 h ▸ window_proper

theorem initEvents_addrs : allAddrs \ coverOf (removals t.initEvents) = t.unreserved := by
  have hone : coverOf (removals [.remove t.window]) = t.window.addrs := by
    rw [removals, coverOf_cons]
    exact Finset.union_empty _
  rw [initEvents, removals_append, coverOf_append, sameRemovals.cover, hone]
  exact sdiff_sdiff_left.symm

theorem initEvents_fit : RangeSet.RemovalsFit 256 allAddrs (removals t.initEvents) ↔
    RangeSet.RemovalsFit 256 allAddrs t.leaves ∧ runs t.unreserved ≤ 256 := by
  rw [initEvents, removals_append, removalsFit_append, sameRemovals.cover, sameRemovals.fit _ runs_allAddrs_le]
  exact and_congr_right fun _ => and_iff_left trivial

/-- What `init` has done when it returns. -/
structure InitDone (t : RecursivePageTable) (w : Walk) : Prop where
  room : RangeSet.RemovalsFit 256 allAddrs t.leaves
  free : trampolinePage.block.addrs ⊆ t.unreserved
  addrs : w.vaddrs.addrs = t.unreserved \ taken t.unreserved trampolinePage.range
  tables : w.tables = reads t.events

theorem trampoline_ne_zero : trampolinePage.start ≠ 0 := by decide

theorem initAllocator_inv (h : initAllocator t Walk.start = .ok () w) : t.recursiveIndex.val < 256 ∧ t.InitDone w := by
  have hR : t.recursiveIndex.val < 256 := by
    by_contra hR
    rw [initAllocator_start, bind_apply] at h
    cases hwalk : recursePageTablesRemoveMapped t 4 (t.memory t.level4)
        ⟨t.recursiveIndex, t.recursiveIndex, t.recursiveIndex, t.recursiveIndex⟩ ⟨allVaddrs, []⟩ with
    | ok _ w' => exact recurse_ne_ok (not_lt.1 hR) _ w' hwalk
    | err e w' => exact e.elim
    | fault f =>
      rw [hwalk] at h
      cases h
  refine ⟨hR, ?_⟩
  rw [initAllocator_eq hR, bind_apply] at h
  have hspec := runAll_spec (w := ⟨allVaddrs, []⟩) allVaddrs_canonical fun r hr => initEvents_proper (t := t) hr
  simp only [allVaddrs_addrs, initEvents_addrs, initEvents_fit, List.nil_append] at hspec
  rcases hspec with ⟨hfit, v, hv, haddrs, hrun⟩ | ⟨-, f, hrun⟩
  · rw [hrun, andThen_ok] at h
    rcases reservePages_spec (w := ⟨v, reads t.initEvents⟩) trampolinePage hv trampoline_ne_zero with
      ⟨hfree, v', -, haddrs', hreserve⟩ | ⟨-, f, hreserve⟩
    · cases hreserve.symm.trans h
      rw [haddrs] at hfree haddrs'
      refine ⟨hfit.1, hfree, haddrs', ?_⟩
      rw [initEvents, reads_append]
      exact List.append_nil _
    · cases hreserve.symm.trans h
  · rw [hrun] at h
    cases h

theorem initAllocator_returns (hR : t.recursiveIndex.val < 256)
    (hroom : RangeSet.RemovalsFit 256 allAddrs t.leaves) (hwindow : runs t.unreserved ≤ 256)
    (hfree : trampolinePage.block.addrs ⊆ t.unreserved)
    (hreserve : runs (t.unreserved \ taken t.unreserved trampolinePage.range) ≤ 256) :
    ∃ w, initAllocator t Walk.start = .ok () w := by
  rw [initAllocator_eq hR, bind_apply]
  have hspec := runAll_spec (w := ⟨allVaddrs, []⟩) allVaddrs_canonical fun r hr => initEvents_proper (t := t) hr
  simp only [allVaddrs_addrs, initEvents_addrs, initEvents_fit, List.nil_append] at hspec
  rcases hspec with ⟨-, v, hv, haddrs, hrun⟩ | ⟨hno, -⟩
  · rw [hrun, andThen_ok]
    rcases reservePages_spec (w := ⟨v, reads t.initEvents⟩) trampolinePage hv trampoline_ne_zero with
      ⟨-, v', -, -, hok⟩ | ⟨hno, -⟩
    · exact ⟨_, hok⟩
    · rw [haddrs] at hno
      exact absurd (hno hfree) (not_lt.2 hreserve)
  · exact absurd ⟨hroom, hwindow⟩ hno

/-! ## The addresses left -/

/-- The trampoline page. -/
def trampolineIndices : PageIndices := ⟨0, 0, 0, 8⟩

theorem lt_of_mem_allAddrs (hx : x ∈ allAddrs) : x < 2 ^ 48 := (Finset.mem_Ico.1 hx).2

theorem mem_trampoline (hx : x < 2 ^ 48) : x ∈ trampolinePage.block.addrs ↔ ofAddr x = trampolineIndices := by
  rw [ofAddr_eq_iff _ hx, MemBlock.mem_addrs]
  change 0x8000 ≤ x ∧ x < 0x8000 + 4096 ↔ x / 4096 = 8
  omega

theorem mem_unreserved : x ∈ t.unreserved ↔ x ∈ allAddrs ∧ ¬ t.Removed (ofAddr x) ∧
    ¬ ((ofAddr x).l4 = t.recursiveIndex ∧ (ofAddr x = t.lastPage → x = t.lastPage.number * 4096)) := by
  rw [unreserved, Finset.mem_sdiff, Finset.mem_sdiff, and_assoc]
  refine and_congr_right fun hx => ?_
  rw [mem_leaves_iff (lt_of_mem_allAddrs hx), mem_window (lt_of_mem_allAddrs hx)]

theorem mem_entryEvents {frame' : ℕ} {E : List Event} : Event.read frame ∈ (if present then
      (if huge then [.remove r] else []) ++ .read frame' :: E else []) ↔
      present ∧ (frame = frame' ∨ .read frame ∈ E) := by
  cases present <;> cases huge <;> simp

theorem not_mem_events1 {pageTable : PageTable} {l2 : PageTableIndex} :
    Event.read frame ∉ events1 l4 l3 l2 pageTable := by
  intro h
  obtain ⟨l1, -, h⟩ := List.mem_flatMap.1 h
  split at h
  case isTrue => cases List.mem_singleton.1 h
  case isFalse => exact List.not_mem_nil h

/-- A frame the walk reads as a table. -/
theorem mem_reads_events : frame ∈ reads t.events ↔ ∃ l4, (t.entry4 l4).isPresent ∧ (frame = (t.entry4 l4).frame ∨
      ∃ l3, (t.entry3 l4 l3).isPresent ∧ (frame = (t.entry3 l4 l3).frame ∨
        ∃ l2, (t.entry2 l4 l3 l2).isPresent ∧ frame = t.child1 l4 l3 l2)) := by
  rw [mem_reads, events, List.mem_flatMap]
  simp only [PageTableIndex.mem_all, true_and]
  refine exists_congr fun l4 => ?_
  rw [List.mem_ite_nil_right, List.mem_cons, Event.read.injEq, events3, List.mem_flatMap]
  simp only [PageTableIndex.mem_all, true_and, mem_entryEvents]
  refine and_congr_right fun _ => or_congr_right (exists_congr fun l3 => ?_)
  rw [events2, List.mem_flatMap]
  simp only [PageTableIndex.mem_all, true_and, mem_entryEvents, not_mem_events1, or_false]
end RecursivePageTable

/-! ## Exactness -/

/-- **`init` is exact**: it returns with exactly the addresses free that are not mapped, not in the window
of the recursive mapping and not in the trampoline page, and has read nothing but page tables. -/
def InitIsExact (t : RecursivePageTable) : Prop := ∃ w, initAllocator t Walk.start = .ok () w ∧
    (∀ x, x ∈ w.vaddrs.addrs ↔ x ∈ allAddrs ∧ ¬ t.Mapped (ofAddr x) ∧ (ofAddr x).l4 ≠ t.recursiveIndex ∧
      ofAddr x ≠ trampolineIndices) ∧
    ∀ frame ∈ w.tables, t.IsTableFrame frame

/-- What it takes for `init` to be exact. -/
structure ExactCondition (t : RecursivePageTable) : Prop where
  /-- the tables are in the lower half, and not where the trampoline is -/
  index_ne : t.recursiveIndex ≠ 0
  index_lt : t.recursiveIndex.val < 256
  trampoline_free : ¬ t.Removed trampolineIndices
  /-- the page before or behind the trampoline page is mapped -/
  trampoline_edge : t.Mapped ⟨0, 0, 0, 7⟩ ∨ t.Mapped ⟨0, 0, 0, 9⟩
  /-- pages mapped with bit 7 are never free -/
  bit7 : ∀ p, t.MappedWithBit7 p → p.number < 2 ∨ p = trampolineIndices ∨ p.l4 = t.recursiveIndex
  window_end : t.Removed t.lastPage
  /-- what is mapped by 1GiB begins with tables -/
  huge3 : ∀ l4 l3, (t.entry4 l4).isPresent → (t.entry3 l4 l3).isPresent → (t.entry3 l4 l3).isHuge →
    t.IsTableFrame (t.entry3 l4 l3).frame ∧ ∀ l2, (t.entry2 l4 l3 l2).isPresent →
      t.IsTableFrame ((t.entry3 l4 l3).frame / 512 * 512 + l2)
  /-- what is mapped by 2MiB begins with a table -/
  huge2 : ∀ l4 l3 l2, (t.entry4 l4).isPresent → (t.entry3 l4 l3).isPresent →
    ¬ (t.entry3 l4 l3).isHuge → (t.entry2 l4 l3 l2).isPresent → (t.entry2 l4 l3 l2).isHuge →
      t.IsTableFrame (t.entry2 l4 l3 l2).frame
  /-- the free ranges fit into the range set, mapping by mapping -/
  room : RangeSet.RemovalsFit 256 allAddrs t.leaves

namespace InitIsExact
open RecursivePageTable

/-- What is left is exact. -/
theorem done (h : InitIsExact t) : t.recursiveIndex.val < 256 ∧ ∃ w, t.InitDone w ∧
    (∀ x, x ∈ w.vaddrs.addrs ↔ x ∈ allAddrs ∧ ¬ t.Mapped (ofAddr x) ∧
      (ofAddr x).l4 ≠ t.recursiveIndex ∧ ofAddr x ≠ trampolineIndices) ∧
    ∀ frame ∈ reads t.events, t.IsTableFrame frame := by
  obtain ⟨w, hinit, hfree, htables⟩ := h
  obtain ⟨hR, hdone⟩ := initAllocator_inv hinit
  exact ⟨hR, w, hdone, hfree, hdone.tables ▸ htables⟩
end InitIsExact

namespace RecursivePageTable

theorem ofAddr_trampoline : ofAddr 0x8000 = trampolineIndices := by decide

theorem trampoline_mem : 0x8000 ∈ trampolinePage.block.addrs := (mem_trampoline (by decide)).2 ofAddr_trampoline

/-- When the trampoline page could be reserved. -/
theorem InitDone.trampoline (h : t.InitDone w) : t.recursiveIndex ≠ 0 ∧ ¬ t.Removed trampolineIndices := by
  obtain ⟨-, hremoved, hwindow⟩ := mem_unreserved.1 (h.free trampoline_mem)
  rw [ofAddr_trampoline] at hremoved hwindow
  refine ⟨fun hR => hwindow ⟨hR.symm, fun hlast => ?_⟩, hremoved⟩
  have h8 : (8 : PageTableIndex) = 511 := congrArg l1 hlast
  exact absurd h8 (by decide)

/-- An address of a page that is not taken out, outside the window. -/
theorem mem_unreserved_of_page (hx : x ∈ allAddrs) (hp : ofAddr x = p)
    (hremoved : ¬ t.Removed p) (hl4 : p.l4 ≠ t.recursiveIndex) : x ∈ t.unreserved := by
  rw [mem_unreserved, hp]
  exact ⟨hx, hremoved, fun h => hl4 h.1⟩

theorem InitDone.mem_addrs (h : t.InitDone w) (hx : x ∈ t.unreserved)
    (hp : ofAddr x ≠ trampolineIndices) : x ∈ w.vaddrs.addrs := by
  rw [h.addrs, Finset.mem_sdiff]
  refine ⟨hx, fun htaken => hp ?_⟩
  rw [← mem_trampoline (lt_of_mem_allAddrs (mem_unreserved.1 hx).1), ← Aligned.range_addrs]
  unfold taken at htaken
  split at htaken
  case isTrue => exact Finset.mem_of_mem_erase htaken
  case isFalse => exact htaken

/-- The first address of a page. -/
theorem ofAddr_number : ofAddr (p.number * 4096) = p := by
  have hp := p.number_lt
  rw [ofAddr_eq_iff p (by omega)]
  omega
end RecursivePageTable

namespace InitIsExact
open RecursivePageTable
section
variable (h : InitIsExact t)
include h

/-- A trampoline page that is free on both sides would keep its first byte. -/
theorem trampoline_edge : t.Mapped ⟨0, 0, 0, 7⟩ ∨ t.Mapped ⟨0, 0, 0, 9⟩ := by
  obtain ⟨-, w, hdone, hfree, -⟩ := h.done
  obtain ⟨hR, -⟩ := hdone.trampoline
  by_contra hnot
  push Not at hnot
  have hbefore : 0x7fff ∈ t.unreserved :=
    mem_unreserved_of_page (p := ⟨0, 0, 0, 7⟩) (Finset.mem_Ico.2 (by decide)) (by decide)
      (fun h => hnot.1 h.1) hR.symm
  have hbehind : 0x9000 ∈ t.unreserved :=
    mem_unreserved_of_page (p := ⟨0, 0, 0, 9⟩) (Finset.mem_Ico.2 (by decide)) (by decide)
      (fun h => hnot.2 h.1) hR.symm
  have henclosed : RangeSet.Enclosed t.unreserved trampolinePage.range := ⟨by decide, hbefore, hbehind⟩
  have hstray : 0x8000 ∈ w.vaddrs.addrs := by
    rw [hdone.addrs, taken, if_pos henclosed, Finset.mem_sdiff]
    exact ⟨hdone.free trampoline_mem, fun h => (Finset.mem_erase.1 h).1 rfl⟩
  exact ((hfree 0x8000).1 hstray).2.2.2 ofAddr_trampoline

/-- A page mapped with bit 7 would stay free. -/
theorem bit7 (hp : t.MappedWithBit7 p) : p.number < 2 ∨ p = trampolineIndices ∨ p.l4 = t.recursiveIndex := by
  obtain ⟨-, w, hdone, hfree, -⟩ := h.done
  by_contra hnot
  push Not at hnot
  obtain ⟨hmin, htrampoline, hl4⟩ := hnot
  have hin : p.number * 4096 ∈ allAddrs := by
    have hlt := p.number_lt
    rw [allAddrs, Finset.mem_Ico]
    omega
  have hmapped : t.Mapped p := by
    obtain ⟨hp4, hp3, -, hp2, -, hp1, -⟩ := hp
    exact t.mapped_iff.2 ⟨hp4, hp3, Or.inr ⟨hp2, Or.inr hp1⟩⟩
  have hleft : p.number * 4096 ∈ w.vaddrs.addrs :=
    hdone.mem_addrs (mem_unreserved_of_page hin ofAddr_number (fun h => h.2 hp) hl4) (ofAddr_number ▸ htrampoline)
  have hout := ((hfree _).1 hleft).2.1
  rw [ofAddr_number] at hout
  exact hout hmapped

/-- The last page of the window would stay free, but for its first byte. -/
theorem window_end : t.Removed t.lastPage := by
  obtain ⟨-, w, hdone, hfree, -⟩ := h.done
  obtain ⟨hR, -⟩ := hdone.trampoline
  by_contra hnot
  have hlt := t.lastPage.number_lt
  have hnumber := lastPage_number (t := t)
  have hin : t.lastPage.number * 4096 + 1 ∈ allAddrs := by
    rw [allAddrs, Finset.mem_Ico]
    omega
  have hpage : ofAddr (t.lastPage.number * 4096 + 1) = t.lastPage := by
    rw [ofAddr_eq_iff _ (lt_of_mem_allAddrs hin)]
    omega
  have hunreserved : t.lastPage.number * 4096 + 1 ∈ t.unreserved := by
    rw [mem_unreserved, hpage]
    refine ⟨hin, hnot, fun h => ?_⟩
    have hfirst := h.2 rfl
    omega
  have hother : t.lastPage ≠ trampolineIndices := fun e => hR (congrArg l4 e)
  have hleft := hdone.mem_addrs hunreserved (by rwa [hpage])
  refine ((hfree _).1 hleft).2.2.1 ?_
  rw [hpage]
  rfl

theorem condition : ExactCondition t := by
  obtain ⟨hlt, w, hdone, -, htables⟩ := h.done
  obtain ⟨hR, htrampoline⟩ := hdone.trampoline
  refine ⟨hR, hlt, htrampoline, h.trampoline_edge, fun p hp => h.bit7 hp, h.window_end,
    fun l4 l3 hp4 hp3 hh3 => ⟨?_, fun l2 hp2 => ?_⟩, fun l4 l3 l2 hp4 hp3 hh3 hp2 hh2 => ?_, hdone.room⟩
  · exact htables _ (mem_reads_events.2 ⟨l4, hp4, Or.inr ⟨l3, hp3, Or.inl rfl⟩⟩)
  · have hchild : t.child1 l4 l3 l2 = (t.entry3 l4 l3).frame / 512 * 512 + l2 := if_pos hh3
    rw [← hchild]
    exact htables _ (mem_reads_events.2 ⟨l4, hp4, Or.inr ⟨l3, hp3, Or.inr ⟨l2, hp2, rfl⟩⟩⟩)
  · have hchild : t.child1 l4 l3 l2 = (t.entry2 l4 l3 l2).frame := if_neg hh3
    rw [← hchild]
    exact htables _ (mem_reads_events.2 ⟨l4, hp4, Or.inr ⟨l3, hp3, Or.inr ⟨l2, hp2, rfl⟩⟩⟩)
end
end InitIsExact

namespace ExactCondition
open RecursivePageTable
section
variable (h : ExactCondition t)
include h

theorem trampoline_subset : trampolinePage.block.addrs ⊆ t.unreserved := by
  intro x hx
  have hin : x ∈ allAddrs := by
    rw [MemBlock.mem_addrs] at hx
    change 0x8000 ≤ x ∧ x < 0x8000 + 4096 at hx
    rw [allAddrs, Finset.mem_Ico]
    omega
  exact mem_unreserved_of_page hin ((mem_trampoline (lt_of_mem_allAddrs hin)).1 hx) h.trampoline_free h.index_ne.symm

/-- One of the pages beside the trampoline page is taken out. -/
theorem not_enclosed : ¬ RangeSet.Enclosed t.unreserved trampolinePage.range := by
  have hremoved : ∀ p : PageIndices, p.l4 = 0 → 2 ≤ p.number → p ≠ trampolineIndices → t.Mapped p →
      t.Removed p := by
    intro p hl4 hmin hother hmapped
    refine ⟨hmapped, fun hbit7 => ?_⟩
    rcases h.bit7 p hbit7 with hlow | htrampoline | hwindow
    · omega
    · exact hother htrampoline
    · exact h.index_ne (hwindow.symm.trans hl4)
  rintro ⟨-, hbefore, hbehind⟩
  rcases h.trampoline_edge with hmapped | hmapped
  · have hpage : ofAddr 0x7fff = ⟨0, 0, 0, 7⟩ := by decide
    refine (mem_unreserved.1 hbefore).2.1 ?_
    rw [show trampolinePage.range.lo - 1 = 0x7fff from rfl, hpage]
    exact hremoved _ rfl (by decide) (by decide) hmapped
  · have hpage : ofAddr 0x9000 = ⟨0, 0, 0, 9⟩ := by decide
    refine (mem_unreserved.1 hbehind).2.1 ?_
    rw [show trampolinePage.range.past = 0x9000 from rfl, hpage]
    exact hremoved _ rfl (by decide) (by decide) hmapped

/-- Taking out the window needs no room, as its last page is gone. -/
theorem window_room : runs t.unreserved ≤ 256 := by
  refine (runs_sdiff_Ico_le_of_end fun m hm hmb => ?_).trans (h.room.runs_le runs_allAddrs_le)
  obtain ⟨hin, hout⟩ := Finset.mem_sdiff.1 hm
  have hm : m = t.lastPage.number * 4096 := Nat.succ.inj (hmb.trans window_past)
  refine absurd ((mem_leaves_iff (lt_of_mem_allAddrs hin)).2 ?_) hout
  rw [hm, ofAddr_number]
  exact h.window_end

/-- Reserving the trampoline page needs no room, as it is not free on both sides. -/
theorem reserve_room : runs (t.unreserved \ taken t.unreserved trampolinePage.range) ≤ 256 := by
  rw [taken, if_neg h.not_enclosed]
  refine le_trans ?_ h.window_room
  by_cases hbehind : trampolinePage.range.past ∈ t.unreserved
  · have hstart : trampolinePage.range.lo ∈ runStarts t.unreserved := by
      refine mem_runStarts.2 ⟨h.trampoline_subset trampoline_mem, fun m hm hmlo => ?_⟩
      refine h.not_enclosed ⟨by decide, ?_, hbehind⟩
      rwa [← hmlo, Nat.add_sub_cancel]
    exact runs_sdiff_Ico_le_of_start trampolinePage.range_proper hstart
  · exact runs_sdiff_Ico_le_of_end fun _ _ _ => hbehind

theorem returns : ∃ w, initAllocator t Walk.start = .ok () w :=
  initAllocator_returns h.index_lt h.room h.window_room h.trampoline_subset h.reserve_room

/-- The addresses left are those that should be. -/
theorem mem_left (hx : x ∈ allAddrs) : x ∈ t.unreserved \ trampolinePage.block.addrs ↔
    ¬ t.Mapped (ofAddr x) ∧ (ofAddr x).l4 ≠ t.recursiveIndex ∧ ofAddr x ≠ trampolineIndices := by
  rw [Finset.mem_sdiff, mem_trampoline (lt_of_mem_allAddrs hx), mem_unreserved]
  constructor
  · rintro ⟨⟨-, hremoved, hwindow⟩, hother⟩
    have hl4 : (ofAddr x).l4 ≠ t.recursiveIndex := fun hl4 =>
      hwindow ⟨hl4, fun hlast => absurd (hlast ▸ h.window_end) hremoved⟩
    refine ⟨fun hmapped => hremoved ⟨hmapped, fun hbit7 => ?_⟩, hl4, hother⟩
    rcases h.bit7 _ hbit7 with hlow | htrampoline | hwindow
    · rw [number_ofAddr (lt_of_mem_allAddrs hx)] at hlow
      have hmin := (Finset.mem_Ico.1 hx).1
      omega
    · exact hother htrampoline
    · exact hl4 hwindow
  · rintro ⟨hmapped, hl4, hother⟩
    exact ⟨⟨hx, fun hremoved => hmapped hremoved.1, fun hwindow => hl4 hwindow.1⟩, hother⟩
end

theorem isTable2 (hp4 : (t.entry4 l4).isPresent = true)
    (hp3 : (t.entry3 l4 l3).isPresent = true) (hh3 : (t.entry3 l4 l3).isHuge = false) :
    t.IsTable 2 (t.entry3 l4 l3).frame :=
  .next (.next .level4 (by decide) hp4 (t.reserved l4)) (by decide) hp3 hh3

theorem tables (h : ExactCondition t) (hframe : frame ∈ reads t.events) :
    t.IsTableFrame frame := by
  obtain ⟨l4, hp4, rfl | ⟨l3, hp3, rfl | ⟨l2, hp2, rfl⟩⟩⟩ := mem_reads_events.1 hframe
  · exact ⟨3, .next .level4 (by decide) hp4 (t.reserved l4)⟩
  · cases hh3 : (t.entry3 l4 l3).isHuge with
    | true => exact (h.huge3 l4 l3 hp4 hp3 hh3).1
    | false => exact ⟨2, isTable2 hp4 hp3 hh3⟩
  · cases hh3 : (t.entry3 l4 l3).isHuge with
    | true =>
      rw [child1, if_pos hh3]
      exact (h.huge3 l4 l3 hp4 hp3 hh3).2 l2 hp2
    | false =>
      have hnot : ¬ (t.entry3 l4 l3).isHuge = true := Bool.eq_false_iff.1 hh3
      rw [child1, if_neg hnot]
      cases hh2 : (t.entry2 l4 l3 l2).isHuge with
      | true => exact h.huge2 l4 l3 l2 hp4 hp3 hnot hp2 hh2
      | false => exact ⟨1, .next (isTable2 hp4 hp3 hh3) (le_refl 1) hp2 hh2⟩

theorem exact (h : ExactCondition t) : InitIsExact t := by
  obtain ⟨w, hinit⟩ := h.returns
  obtain ⟨-, hdone⟩ := initAllocator_inv hinit
  refine ⟨w, hinit, fun x => ?_, fun frame hframe => h.tables (hdone.tables ▸ hframe)⟩
  rw [hdone.addrs, taken, if_neg h.not_enclosed, Aligned.range_addrs]
  constructor
  · intro hx
    have hin := (mem_unreserved.1 (Finset.mem_sdiff.1 hx).1).1
    exact ⟨hin, (h.mem_left hin).1 hx⟩
  · rintro ⟨hin, hx⟩
    exact (h.mem_left hin).2 hx
end ExactCondition

/-- **When `init` is exact.** -/
theorem init_exact_iff (t : RecursivePageTable) : InitIsExact t ↔ ExactCondition t :=
  ⟨fun h => h.condition, fun h => h.exact⟩

/-! ## Two sets of tables -/

/-- Memory with nothing but the recursive entry. -/
def emptyMemory (frame : ℕ) (i : PageTableIndex) : PageTableEntry := ⟨if frame = 0 ∧ i = 1 then 1 else 0⟩

theorem emptyMemory_not_huge (frame : ℕ) (i : PageTableIndex) : (emptyMemory frame i).isHuge = false := by
  unfold emptyMemory
  split <;> rfl

/-- Tables with nothing but the recursive entry. -/
def emptyTables : RecursivePageTable := ⟨emptyMemory, 0, 1, rfl, rfl, emptyMemory_not_huge 0⟩

/-- The last bytes of the window stay free. -/
theorem not_init_exact_empty : ¬ InitIsExact emptyTables := by
  intro h
  have hend := (removed_iff.1 h.window_end).2.1
  exact absurd hend (by decide)

/-- Memory with tables that map the page before the trampoline, and the tables for the last page. -/
def lowMemory (frame : ℕ) (i : PageTableIndex) : PageTableEntry := ⟨match frame, i.val with
    | 0, 0 => 0x1001
    | 0, 1 => 0x0001
    | 0, 511 => 0x4001
    | 1, 0 => 0x2001
    | 2, 0 => 0x3001
    | 3, 7 => 0x7001
    | 4, 511 => 0x5001
    | 5, 511 => 0x6001
    | _, _ => 0⟩

theorem lowMemory_not_huge (frame : ℕ) (i : PageTableIndex) : (lowMemory frame i).isHuge = false := by
  unfold lowMemory
  split <;> rfl

/-- Tables with few entries. -/
def lowTables : RecursivePageTable := ⟨lowMemory, 0, 1, rfl, rfl, lowMemory_not_huge 0⟩

namespace RecursivePageTable
variable {n : ℕ} {k : ℕ}

/-- The present entries of a frame read as a table. -/
def presentCount (t : RecursivePageTable) (frame : ℕ) : ℕ :=
  PageTableIndex.all.countP fun i => (t.memory frame i).isPresent

theorem length_flatMap_le {present : PageTableIndex → Bool} (hg : ∀ i, (g i).length ≤ k) (l : List PageTableIndex) :
    (l.flatMap fun i => if present i then g i else []).length ≤ l.countP present * k := by
  induction l with
  | nil => exact zero_le _
  | cons i l ih =>
    rw [List.flatMap_cons, List.length_append, List.countP_cons]
    cases present i with
    | false => simpa using ih
    | true =>
      rw [if_pos rfl, if_pos rfl, add_mul, one_mul, add_comm]
      exact Nat.add_le_add ih (hg i)

theorem length_ite_le (hk : 1 ≤ k) (hL : L.length ≤ k) : (if huge then [r] else L).length ≤ k := by
  cases huge with
  | false => exact hL
  | true => exact hk

/-- Tables with at most `n` entries each have at most `n ^ 4` mappings. -/
theorem leaves_length_le (hn : 1 ≤ n) (h : ∀ frame, t.presentCount frame ≤ n) :
    t.leaves.length ≤ n * (n * (n * n)) := by
  have hlevel : ∀ {frame k : ℕ} {g : PageTableIndex → List Range}, (∀ i, (g i).length ≤ k) →
      (PageTableIndex.all.flatMap fun i => if (t.memory frame i).isPresent then g i else []).length
        ≤ n * k := fun hg => (length_flatMap_le hg _).trans (mul_le_mul_right _ (h _))
  have h1 : ∀ l4 l3 l2, (t.leaves1 l4 l3 l2).length ≤ n := by
    intro l4 l3 l2
    refine (length_flatMap_le (fun _ => le_refl 1) _).trans ?_
    rw [mul_one]
    refine le_trans (List.countP_mono_left fun i _ hi => ?_) (h (t.entry2 l4 l3 l2).frame)
    exact (Bool.and_eq_true_iff.1 hi).1
  have h2 : ∀ l4 l3, (t.leaves2 l4 l3).length ≤ n * n := fun l4 l3 => hlevel fun l2 => length_ite_le hn (h1 l4 l3 l2)
  have h3 : ∀ l4, (t.leaves3 l4).length ≤ n * (n * n) := fun l4 =>
    hlevel fun l3 => length_ite_le (Nat.mul_pos hn hn) (h2 l4 l3)
  exact hlevel h3
end RecursivePageTable

theorem lowMemory_of_le (h : 6 ≤ frame) (i : PageTableIndex) : lowMemory frame i = ⟨0⟩ := by
  unfold lowMemory
  split <;> first | rfl | omega

theorem lowTables_present (frame : ℕ) : lowTables.presentCount frame ≤ 3 := by
  rcases lt_or_ge frame 6 with hframe | hframe
  · interval_cases frame <;> decide +kernel
  · refine (le_of_eq (List.countP_eq_zero.2 fun i _ => ?_)).trans (zero_le 3)
    have hempty : lowTables.memory frame i = ⟨0⟩ := lowMemory_of_le hframe i
    rw [hempty]
    decide

/-- The condition can be met. -/
theorem exactCondition_lowTables : ExactCondition lowTables where
  index_ne := by decide
  index_lt := by decide
  trampoline_free h := absurd (removed_iff.1 h) (by decide)
  trampoline_edge := Or.inl rfl
  bit7 p h := by
    obtain ⟨-, -, -, -, -, -, hhuge⟩ := h
    exact absurd hhuge (Bool.eq_false_iff.1 (lowMemory_not_huge _ _))
  window_end := removed_iff.2 (by decide)
  huge3 l4 l3 _ _ hhuge := absurd hhuge (Bool.eq_false_iff.1 (lowMemory_not_huge _ _))
  huge2 l4 l3 l2 _ _ _ _ hhuge := absurd hhuge (Bool.eq_false_iff.1 (lowMemory_not_huge _ _))
  room := removalsFit_of_length_le (by
    have hleaves := leaves_length_le (by decide) lowTables_present
    rw [runs_allAddrs]
    omega)
end WasabiOS
