import WasabiOS.Kernel.PageAllocatorInit
import WasabiOS.Shared.RangeSetSpec

/-!
# Kernel/InitEvents — the walk over the page tables as a list of events

If the recursive index is below 256, every table the walk goes on to is mapped, and the walk is a list of
**events**, ranges taken out and frames read (`recurse_eq`).  It can only fail by running out of room
for the ranges (`runAll_spec`).

The ranges it takes out are those of the mappings, in order of their addresses (`leaves`).  A huge entry
of level 3 or 2 is taken out and then followed as if it pointed at a table; what that takes out is
inside the mapping, so it changes nothing (`sameRemovals`).
-/

open Machinery Prog IntervalList
namespace WasabiOS
open RangeSet
variable {ι : Type} {frame : ℕ} {r : Range}

/-! ## Ranges taken out one after another -/

namespace RangeSet
variable {N : ℕ} {S : Finset ℕ} {l l' l₁ l₂ : List Range}

/-- Taking the ranges out of `S` one after another never leaves more than `N` runs. -/
def RemovalsFit (N : ℕ) : Finset ℕ → List Range → Prop
  | _, [] => True
  | S, r :: l => runs (S \ r.addrs) ≤ N ∧ RemovalsFit N (S \ r.addrs) l

theorem coverOf_cons : coverOf (r :: l) = r.addrs ∪ coverOf l := by
  rw [← List.nil_append (r :: l), coverOf_middle, List.nil_append]

theorem coverOf_append : coverOf (l₁ ++ l₂) = coverOf l₁ ∪ coverOf l₂ := by
  ext n
  simp only [mem_cover, Finset.mem_union, List.mem_append, or_and_right, exists_or]

theorem sdiff_coverOf_cons : S \ coverOf (r :: l) = (S \ r.addrs) \ coverOf l := by
  rw [coverOf_cons, sdiff_sdiff_left]
  rfl

theorem removalsFit_append : RemovalsFit N S (l₁ ++ l₂) ↔ RemovalsFit N S l₁ ∧ RemovalsFit N (S \ coverOf l₁) l₂ := by
  induction l₁ generalizing S with
  | nil =>
    have hnil : S \ coverOf [] = S := Finset.sdiff_empty
    rw [List.nil_append, hnil, RemovalsFit, true_and]
  | cons r l₁ ih => rw [List.cons_append, RemovalsFit, RemovalsFit, ih, sdiff_coverOf_cons, and_assoc]

/-- What is left in the end has room. -/
theorem RemovalsFit.runs_le (h : RemovalsFit N S l) (hS : runs S ≤ N) : runs (S \ coverOf l) ≤ N := by
  induction l generalizing S with
  | nil =>
    have hnil : S \ coverOf [] = S := Finset.sdiff_empty
    rwa [hnil]
  | cons r l ih =>
    rw [sdiff_coverOf_cons]
    exact ih h.2 h.1

/-- Taking out what is not there changes nothing. -/
theorem removalsFit_of_disjoint (hS : runs S ≤ N) (h : Disjoint S (coverOf l)) : RemovalsFit N S l := by
  induction l generalizing S with
  | nil => trivial
  | cons r l ih =>
    rw [coverOf_cons, Finset.disjoint_union_right] at h
    have hsame : S \ r.addrs = S := Finset.sdiff_eq_self_of_disjoint h.1
    rw [RemovalsFit, hsame]
    exact ⟨hS, ih hS h.2⟩

/-- Each range needs room for one more run at most. -/
theorem removalsFit_of_length_le (h : runs S + l.length ≤ N) : RemovalsFit N S l := by
  induction l generalizing S with
  | nil => trivial
  | cons r l ih =>
    have hone := runs_sdiff_Ico_le S r.lo r.past
    rw [List.length_cons] at h
    exact ⟨hone.trans (by omega), ih (le_trans (Nat.add_le_add_right hone _) (by omega))⟩

/-- Two lists of ranges that take out the same and need the same room. -/
structure SameRemovals (N : ℕ) (l l' : List Range) : Prop where
  cover : coverOf l = coverOf l'
  fit : ∀ S, runs S ≤ N → (RemovalsFit N S l ↔ RemovalsFit N S l')

theorem sameRemovals_refl (l : List Range) : SameRemovals N l l := ⟨rfl, fun _ _ => Iff.rfl⟩

theorem SameRemovals.append {l1' l2' : List Range} (h1 : SameRemovals N l₁ l1')
    (h₂ : SameRemovals N l₂ l2') : SameRemovals N (l₁ ++ l₂) (l1' ++ l2') where
  cover := by rw [coverOf_append, coverOf_append, h1.cover, h₂.cover]
  fit S hS := by
    rw [removalsFit_append, removalsFit_append, h1.cover, h1.fit S hS]
    refine and_congr_right fun hfit => h₂.fit _ (hfit.runs_le hS)

theorem SameRemovals.flatMap {g g' : ι → List Range} (h : ∀ i, SameRemovals N (g i) (g' i))
    (is : List ι) : SameRemovals N (is.flatMap g) (is.flatMap g') := by
  induction is with
  | nil => exact sameRemovals_refl []
  | cons i is ih =>
    rw [List.flatMap_cons, List.flatMap_cons]
    exact (h i).append ih

/-- Ranges inside one that is gone need no room. -/
theorem sameRemovals_cons (h : coverOf l ⊆ r.addrs) : SameRemovals N (r :: l) [r] where
  cover := by
    rw [coverOf_cons, coverOf_cons, Finset.union_eq_left.2 h]
    exact (Finset.union_empty _).symm
  fit S _ := by
    refine and_congr_right fun hfit => iff_of_true (removalsFit_of_disjoint hfit ?_) trivial
    exact Finset.disjoint_of_subset_right h Finset.sdiff_disjoint
end RangeSet

/-! ## Events -/

/-- A step of the walk. -/
inductive Event where
  /-- a range is taken out -/
  | remove (range : Range)
  /-- a frame is read as a page table -/
  | read (frame : ℕ)

namespace Event

/-- Run a step. -/
def run : Event → Prog Walk Empty Unit
  | remove range => Walk.remove range
  | read frame => Prog.modify fun w => { w with tables := w.tables ++ [frame] }

/-- Run the steps. -/
def runAll (E : List Event) : Prog Walk Empty Unit := forEach run E

/-- The ranges taken out. -/
def removals : List Event → List Range
  | [] => []
  | remove range :: E => range :: removals E
  | read _ :: E => removals E

/-- The frames read. -/
def reads : List Event → List ℕ
  | [] => []
  | remove _ :: E => reads E
  | read frame :: E => frame :: reads E

variable {E E1 E2 : List Event}

theorem removals_append : removals (E1 ++ E2) = removals E1 ++ removals E2 := by
  induction E1 with
  | nil => rfl
  | cons e E1 ih =>
    cases e with
    | remove range => exact congrArg _ ih
    | read frame => exact ih

theorem reads_append : reads (E1 ++ E2) = reads E1 ++ reads E2 := by
  induction E1 with
  | nil => rfl
  | cons e E1 ih =>
    cases e with
    | remove range => exact ih
    | read frame => exact congrArg _ ih

theorem mem_reads : frame ∈ reads E ↔ read frame ∈ E := by
  induction E with
  | nil => exact iff_of_false List.not_mem_nil List.not_mem_nil
  | cons e E ih =>
    cases e with
    | remove range => simp [reads, ih]
    | read f => simp [reads, ih]

theorem removals_flatMap (g : ι → List Event) (l : List ι) :
    removals (l.flatMap g) = l.flatMap fun i => removals (g i) := by
  induction l with
  | nil => rfl
  | cons i l ih => rw [List.flatMap_cons, List.flatMap_cons, removals_append, ih]

/-- **Running events** takes out all the ranges, or faults as there is no room. -/
theorem runAll_spec {w : Walk} (hw : RangeSet.Canonical w.vaddrs.entries) (hproper : ∀ r ∈ removals E, r.Proper) :
    (RangeSet.RemovalsFit 256 w.vaddrs.addrs (removals E) ∧ ∃ v : RangeSet 256,
      RangeSet.Canonical v.entries ∧ v.addrs = w.vaddrs.addrs \ coverOf (removals E) ∧
      runAll E w = .ok () ⟨v, w.tables ++ reads E⟩) ∨
    (¬ RangeSet.RemovalsFit 256 w.vaddrs.addrs (removals E) ∧ ∃ f, runAll E w = .fault f) := by
  induction E generalizing w with
  | nil =>
    refine Or.inl ⟨trivial, w.vaddrs, hw, Finset.sdiff_empty.symm, ?_⟩
    rw [reads, List.append_nil]
    rfl
  | cons e E ih =>
    cases e with
    | read frame =>
      rcases ih (w := ⟨w.vaddrs, w.tables ++ [frame]⟩) hw hproper with ⟨hfit, v, hv, haddrs, hrun⟩ | hno
      · refine Or.inl ⟨hfit, v, hv, haddrs, ?_⟩
        rw [List.append_assoc] at hrun
        exact hrun
      · exact Or.inr hno
    | remove range =>
      obtain ⟨l, hl, hcover, hremove⟩ := remove_eq hw (hproper range List.mem_cons_self)
      have hstep : runAll (remove range :: E) w = (match w.vaddrs.remove range with
          | .ok v => runAll E ⟨v, w.tables⟩
          | .error f => .fault f) := by
        simp only [runAll, forEach_cons, bind_apply, run, Walk.remove, zoom, stateful]
        cases w.vaddrs.remove range <;> rfl
      have hlen : l.length = runs (w.vaddrs.addrs \ range.addrs) := by rw [hl.length_eq, hcover]
      by_cases hroom : l.length ≤ 256
      · rw [hstep, hremove, ofEntries_ok hroom]
        have hin : ∀ r ∈ removals E, r.Proper := fun r hr => hproper r (List.mem_cons_of_mem _ hr)
        have haddrs : (⟨l, hroom⟩ : RangeSet 256).addrs = w.vaddrs.addrs \ range.addrs := hcover
        rcases ih (w := ⟨⟨l, hroom⟩, w.tables⟩) hl hin with ⟨hfit, v, hv, hv', hrun⟩ | ⟨hno, hrun⟩
        · rw [haddrs] at hfit hv'
          refine Or.inl ⟨⟨hlen ▸ hroom, hfit⟩, v, hv, ?_, hrun⟩
          rw [hv', removals, sdiff_coverOf_cons]
        · rw [haddrs] at hno
          exact Or.inr ⟨fun h => hno h.2, hrun⟩
      · refine Or.inr ⟨fun h => hroom (hlen ▸ h.1), ?_⟩
        rw [hstep, hremove, ofEntries, dif_neg hroom]
        exact ⟨_, rfl⟩
end Event

/-! ## The walk -/

/-- The addresses of a mapping of size `S` that starts at a page. -/
def mappingRange (S : PageSize) (p : PageIndices) : Range := ⟨p.vaddr, p.vaddr + (S.SIZE - 1)⟩

variable {S : PageSize} {l3 l4 : PageTableIndex} {x : ℕ} {p : PageIndices}

theorem mappingRange_add : p.vaddr.toNat + (S.SIZE - 1).toNat < 2 ^ 64 := by
  have hp := p.number_lt
  have hS : (S.SIZE - 1).toNat < 2 ^ 30 := by cases S <;> decide
  rw [p.toNat_vaddr]
  omega

theorem mappingRange_lo : (mappingRange S p).lo = p.number * 4096 := p.toNat_vaddr

theorem mappingRange_past : (mappingRange S p).past = p.number * 4096 + S.SIZE.toNat := by
  have hadd := U64.toNat_add_of_lt (mappingRange_add (S := S) (p := p))
  have hlast := S.toNat_SIZE_sub_one
  have hpos := S.SIZE_pos
  change (p.vaddr + (S.SIZE - 1)).toNat + 1 = _
  rw [hadd, p.toNat_vaddr]
  omega

theorem mappingRange_proper : (mappingRange S p).Proper := by
  unfold Range.Proper
  rw [mappingRange_lo, mappingRange_past]
  exact Nat.lt_add_of_pos_right S.SIZE_pos

/-- The addresses of a mapping, by their upper bits. -/
theorem mem_mappingRange {c n : ℕ} (hp : p.number = c * n) (hn : n * 4096 = 2 ^ S.shift) :
    x ∈ (mappingRange S p).addrs ↔ x / 2 ^ S.shift = c := by
  have hstart : p.number * 4096 = c * 2 ^ S.shift := by rw [hp, mul_assoc, hn]
  have hpos := Nat.two_pow_pos S.shift
  rw [Range.mem_addrs, mappingRange_lo, mappingRange_past, PageSize.toNat_SIZE, hstart, Nat.div_eq_iff hpos]
  omega

theorem mem_mappingRange_4KiB : x ∈ (mappingRange .Size4KiB p).addrs ↔ x / 2 ^ 12 = p.number :=
  mem_mappingRange (mul_one _).symm (by decide)

theorem mem_mappingRange_2MiB {l2 : PageTableIndex} :
    x ∈ (mappingRange .Size2MiB ⟨l4, l3, l2, 0⟩).addrs ↔ x / 2 ^ 21 = (l4 * 512 + l3) * 512 + l2 :=
  mem_mappingRange (n := 512) (by simp only [PageIndices.number, Fin.val_zero, add_zero]) (by decide)

theorem mem_mappingRange_1GiB : x ∈ (mappingRange .Size1GiB ⟨l4, l3, 0, 0⟩).addrs ↔ x / 2 ^ 30 = l4 * 512 + l3 :=
  mem_mappingRange (n := 512 * 512)
    (by simp only [PageIndices.number, Fin.val_zero, add_zero, mul_assoc]) (by decide)

theorem removeMapped_eq : Walk.removeMapped S p.vaddr = Walk.remove (mappingRange S p) := by
  rw [Walk.removeMapped, U64.sub_ok S.one_le_SIZE, ok_bind, U64.add_ok mappingRange_add, lift_ok, pure_bind]
  rfl

namespace RecursivePageTable
variable (t : RecursivePageTable) {pageTable : PageTable} {huge : Bool} {E : List Event}

/-- The walk over a table of level 1. -/
def events1 (l4 l3 l2 : PageTableIndex) (pageTable : PageTable) : List Event := PageTableIndex.all.flatMap fun l1 =>
    if (pageTable l1).isPresent && !(pageTable l1).isHuge then
      [.remove (mappingRange .Size4KiB ⟨l4, l3, l2, l1⟩)]
    else []

/-- The frame the walk reads as a table of level 1: behind a huge entry of level 3, the recursive mapping
leads into the mapped memory. -/
def child1 (l4 l3 l2 : PageTableIndex) : ℕ :=
  if (t.entry3 l4 l3).isHuge then (t.entry3 l4 l3).frame / 512 * 512 + l2 else (t.entry2 l4 l3 l2).frame

/-- The walk over a table of level 2. -/
def events2 (l4 l3 : PageTableIndex) : List Event := PageTableIndex.all.flatMap fun l2 =>
    if (t.entry2 l4 l3 l2).isPresent then
      (if (t.entry2 l4 l3 l2).isHuge then [.remove (mappingRange .Size2MiB ⟨l4, l3, l2, 0⟩)] else [])
        ++ .read (t.child1 l4 l3 l2) :: events1 l4 l3 l2 (t.memory (t.child1 l4 l3 l2))
    else []

/-- The walk over a table of level 3. -/
def events3 (l4 : PageTableIndex) : List Event := PageTableIndex.all.flatMap fun l3 =>
    if (t.entry3 l4 l3).isPresent then
      (if (t.entry3 l4 l3).isHuge then [.remove (mappingRange .Size1GiB ⟨l4, l3, 0, 0⟩)] else [])
        ++ .read (t.entry3 l4 l3).frame :: t.events2 l4 l3
    else []

/-- The walk over the table of level 4. -/
def events : List Event := PageTableIndex.all.flatMap fun l4 =>
    if (t.entry4 l4).isPresent then .read (t.entry4 l4).frame :: t.events3 l4 else []

variable {t} {l4 l3 l2 : PageTableIndex}

theorem recurse1_eq {i : PageTableIndex} : recursePageTablesRemoveMapped t 1 pageTable ⟨i, l4, l3, l2⟩
      = Event.runAll (events1 l4 l3 l2 pageTable) := by
  rw [recursePageTablesRemoveMapped, Event.runAll, events1, forEach_flatMap]
  congr 1
  funext l1
  rw [visitEntry, removeMapped_eq]
  cases (pageTable l1).isPresent <;> cases (pageTable l1).isHuge
  · rfl
  · rfl
  · exact (forEach_singleton _).symm
  · rfl

/-- Below 256, the recursive index makes canonical addresses. -/
theorem deref_eq (hp : p.l4.val < 256) (h : t.translate p = some frame) : Walk.deref t p = (do
      Event.run (.read frame)
      return t.memory frame) := by
  have hcanonical : IsCanonical p.vaddr.toNat := by
    left
    rw [p.toNat_vaddr, PageIndices.number]
    omega
  rw [Walk.deref, if_pos hcanonical, h]
  rfl

theorem not_huge4 : (t.entry4 l4).isHuge = false := t.reserved l4

theorem present_recursive : (t.entry4 t.recursiveIndex).isPresent = true := t.present

section
variable (h4 : (t.entry4 l4).isPresent = true)
include h4

/-- The pages of the tables of level 3. -/
theorem translate_table3 :
    t.translate ⟨t.recursiveIndex, t.recursiveIndex, t.recursiveIndex, l4⟩ = some (t.entry4 l4).frame := by
  simp only [translate, entry1_recursive, entry2_recursive, entry3_recursive, present_recursive, not_huge4, h4]
  rfl

/-- The pages of the tables of level 2, and of what a huge entry of level 3 points at. -/
theorem translate_table2 (h3 : (t.entry3 l4 l3).isPresent = true) :
    t.translate ⟨t.recursiveIndex, t.recursiveIndex, l4, l3⟩ = some (t.entry3 l4 l3).frame := by
  simp only [translate, entry1_recursive, entry2_recursive, entry3_recursive, present_recursive, not_huge4, h4, h3]
  rfl

/-- The pages of the tables of level 1, and of what a huge entry points at. -/
theorem translate_table1 (h3 : (t.entry3 l4 l3).isPresent = true) (h2 : (t.entry2 l4 l3 l2).isPresent = true) :
    t.translate ⟨t.recursiveIndex, l4, l3, l2⟩ = some (t.child1 l4 l3 l2) := by
  simp only [translate, child1, entry1_recursive, entry2_recursive, entry3_recursive,
    present_recursive, not_huge4, h4, h3, h2]
  cases (t.entry3 l4 l3).isHuge <;> rfl
end

/-- **An entry that leads on**: a huge one is taken out first. -/
theorem visitEntry_eq {level : ℕ} {next : PageTable → PageIndices → Prog Walk Empty Unit}
     {entry : PageTableEntry} (huge : Range) (hp : p.l4.val < 256)
    (htranslate : entry.isPresent = true → t.translate p = some frame)
    (hnext : entry.isPresent = true → next (t.memory frame) p = Event.runAll E)
    (hlevel : level = 3 ∧ huge = mappingRange .Size1GiB ⟨p.l2, p.l1, 0, 0⟩ ∨
      level = 2 ∧ huge = mappingRange .Size2MiB ⟨p.l3, p.l2, p.l1, 0⟩ ∨
      level = 4 ∧ entry.isHuge = false) :
    visitEntry t level next entry p = Event.runAll (if entry.isPresent then
      (if entry.isHuge then [.remove huge] else []) ++ .read frame :: E else []) := by
  cases hpresent : entry.isPresent with
  | false =>
    rw [visitEntry, hpresent]
    rfl
  | true =>
    have hrest : (do next (← Walk.deref t p) p) = Event.runAll (.read frame :: E) := by
      rw [deref_eq hp (htranslate hpresent), bind_assoc]
      simp only [pure_bind, hnext hpresent]
      rfl
    have hhead : ∀ r, Event.runAll ([.remove r] ++ .read frame :: E)
        = Walk.remove r >>= fun _ => Event.runAll (.read frame :: E) := fun r => rfl
    rw [visitEntry, hpresent]
    rcases hlevel with ⟨rfl, rfl⟩ | ⟨rfl, rfl⟩ | ⟨rfl, hhuge⟩
    case inr.inr =>
      rw [hhuge]
      exact hrest
    all_goals
      cases entry.isHuge with
      | false => exact hrest
      | true =>
        refine Eq.trans ?_ (hhead _).symm
        rw [← hrest, ← removeMapped_eq]
        rfl

section
variable (hR : t.recursiveIndex.val < 256)
include hR

theorem recurse2_eq (h4 : (t.entry4 l4).isPresent = true) (h3 : (t.entry3 l4 l3).isPresent = true) :
    recursePageTablesRemoveMapped t 2 (t.memory (t.entry3 l4 l3).frame)
        ⟨t.recursiveIndex, t.recursiveIndex, l4, l3⟩ = Event.runAll (t.events2 l4 l3) := by
  rw [recursePageTablesRemoveMapped, Event.runAll, events2, forEach_flatMap]
  congr 1
  funext l2
  exact visitEntry_eq _ hR (fun h2 => translate_table1 h4 h3 h2) (fun _ => recurse1_eq) (Or.inr (Or.inl ⟨rfl, rfl⟩))

theorem recurse3_eq (h4 : (t.entry4 l4).isPresent = true) :
    recursePageTablesRemoveMapped t 3 (t.memory (t.entry4 l4).frame)
        ⟨t.recursiveIndex, t.recursiveIndex, t.recursiveIndex, l4⟩ = Event.runAll (t.events3 l4) := by
  rw [recursePageTablesRemoveMapped, Event.runAll, events3, forEach_flatMap]
  congr 1
  funext l3
  exact visitEntry_eq _ hR (fun h3 => translate_table2 h4 h3) (fun h3 => recurse2_eq hR h4 h3) (Or.inl ⟨rfl, rfl⟩)

/-- **The walk is its events.** -/
theorem recurse_eq : recursePageTablesRemoveMapped t 4 (t.memory t.level4)
      ⟨t.recursiveIndex, t.recursiveIndex, t.recursiveIndex, t.recursiveIndex⟩ = Event.runAll t.events := by
  rw [recursePageTablesRemoveMapped, Event.runAll, events, forEach_flatMap]
  congr 1
  funext l4
  have hhuge : (t.entry4 l4).isHuge = false := t.reserved l4
  have hvisit := visitEntry_eq (mappingRange .Size1GiB ⟨0, 0, 0, 0⟩) hR
    (fun h4 => translate_table3 h4) (fun h4 => recurse3_eq hR h4) (Or.inr (Or.inr ⟨rfl, hhuge⟩))
  rw [hhuge] at hvisit
  exact hvisit
end

/-! ## The mappings -/

variable (t)

/-- The mappings of a table of level 1, without those with bit 7. -/
def leaves1 (l4 l3 l2 : PageTableIndex) : List Range := PageTableIndex.all.flatMap fun l1 =>
    if (t.entry1 l4 l3 l2 l1).isPresent && !(t.entry1 l4 l3 l2 l1).isHuge then
      [mappingRange .Size4KiB ⟨l4, l3, l2, l1⟩]
    else []

/-- The mappings of a table of level 2. -/
def leaves2 (l4 l3 : PageTableIndex) : List Range := PageTableIndex.all.flatMap fun l2 =>
    if (t.entry2 l4 l3 l2).isPresent then
      if (t.entry2 l4 l3 l2).isHuge then [mappingRange .Size2MiB ⟨l4, l3, l2, 0⟩] else t.leaves1 l4 l3 l2
    else []

/-- The mappings of a table of level 3. -/
def leaves3 (l4 : PageTableIndex) : List Range := PageTableIndex.all.flatMap fun l3 =>
    if (t.entry3 l4 l3).isPresent then
      if (t.entry3 l4 l3).isHuge then [mappingRange .Size1GiB ⟨l4, l3, 0, 0⟩] else t.leaves2 l4 l3
    else []

/-- **The mappings**, in order of their addresses, without the pages mapped with bit 7. -/
def leaves : List Range := PageTableIndex.all.flatMap fun l4 => if (t.entry4 l4).isPresent then t.leaves3 l4 else []

variable {t}

theorem mem_removals_events1 (h : r ∈ Event.removals (events1 l4 l3 l2 pageTable)) :
    ∃ l1, r = mappingRange .Size4KiB ⟨l4, l3, l2, l1⟩ := by
  rw [events1, Event.removals_flatMap] at h
  obtain ⟨l1, -, h⟩ := List.mem_flatMap.1 h
  split at h
  case isTrue => exact ⟨l1, List.mem_singleton.1 h⟩
  case isFalse => exact absurd h List.not_mem_nil

/-- What is behind an entry of level 2 is inside its 2MiB. -/
theorem cover_events1 : coverOf (Event.removals (events1 l4 l3 l2 pageTable))
      ⊆ (mappingRange .Size2MiB ⟨l4, l3, l2, 0⟩).addrs := by
  intro x hx
  obtain ⟨r, hr, hlo, hpast⟩ := mem_cover.1 hx
  obtain ⟨l1, rfl⟩ := mem_removals_events1 hr
  have hin := mem_mappingRange_4KiB.1 (Range.mem_addrs.2 ⟨hlo, hpast⟩)
  rw [mem_mappingRange_2MiB]
  simp only [PageIndices.number] at hin
  omega

theorem removals_cons_read : Event.removals ((if huge then [.remove r] else []) ++ .read frame :: E)
      = if huge then r :: Event.removals E else Event.removals E := by
  cases huge <;> rfl

theorem mem_removals_events2 (h : r ∈ Event.removals (t.events2 l4 l3)) :
    ∃ l2, r = mappingRange .Size2MiB ⟨l4, l3, l2, 0⟩ ∨
      r ∈ Event.removals (events1 l4 l3 l2 (t.memory (t.child1 l4 l3 l2))) := by
  rw [events2, Event.removals_flatMap] at h
  obtain ⟨l2, -, h⟩ := List.mem_flatMap.1 h
  refine ⟨l2, ?_⟩
  split at h
  case isTrue =>
    rw [removals_cons_read] at h
    split at h
    case isTrue => exact List.mem_cons.1 h
    case isFalse => exact Or.inr h
  case isFalse => exact absurd h List.not_mem_nil

/-- What is behind an entry of level 3 is inside its 1GiB. -/
theorem cover_events2 : coverOf (Event.removals (t.events2 l4 l3)) ⊆ (mappingRange .Size1GiB ⟨l4, l3, 0, 0⟩).addrs := by
  intro x hx
  obtain ⟨r, hr, hlo, hpast⟩ := mem_cover.1 hx
  obtain ⟨l2, hr⟩ := mem_removals_events2 hr
  -- in either case `x` is in the 2MiB of an entry of level 2
  have hin : x ∈ (mappingRange .Size2MiB ⟨l4, l3, l2, 0⟩).addrs := by
    rcases hr with rfl | hr
    · exact Range.mem_addrs.2 ⟨hlo, hpast⟩
    · exact cover_events1 (mem_cover.2 ⟨r, hr, hlo, hpast⟩)
  rw [mem_mappingRange_2MiB] at hin
  rw [mem_mappingRange_1GiB]
  omega

/-- The walk takes out proper ranges. -/
theorem removals_events_proper (h : r ∈ Event.removals t.events) : r.Proper := by
  have h2 : ∀ {l4 l3}, r ∈ Event.removals (t.events2 l4 l3) → r.Proper := by
    intro l4 l3 h
    obtain ⟨l2, rfl | h⟩ := mem_removals_events2 h
    · exact mappingRange_proper
    · obtain ⟨l1, rfl⟩ := mem_removals_events1 h
      exact mappingRange_proper
  rw [events, Event.removals_flatMap] at h
  obtain ⟨l4, -, h⟩ := List.mem_flatMap.1 h
  split at h
  case isFalse => exact absurd h List.not_mem_nil
  rw [Event.removals, events3, Event.removals_flatMap] at h
  obtain ⟨l3, -, h⟩ := List.mem_flatMap.1 h
  split at h
  case isFalse => exact absurd h List.not_mem_nil
  rw [removals_cons_read] at h
  split at h
  case isFalse => exact h2 h
  rcases List.mem_cons.1 h with rfl | h
  · exact mappingRange_proper
  · exact h2 h

theorem removals_ite {b : Bool} : Event.removals (if b then [.remove r] else []) = if b then [r] else [] := by
  cases b <;> rfl

theorem removals_events1 : Event.removals (events1 l4 l3 l2 (t.memory (t.entry2 l4 l3 l2).frame))
    = t.leaves1 l4 l3 l2 := by
  rw [events1, leaves1, Event.removals_flatMap]
  congr 1
  funext l1
  exact removals_ite

/-- An entry that leads on takes out what it maps. -/
theorem sameRemovals_entry {present : Bool} {L : List Range} (hhuge : coverOf (Event.removals E) ⊆ r.addrs)
    (hnot : huge = false → RangeSet.SameRemovals 256 (Event.removals E) L) :
    RangeSet.SameRemovals 256 (Event.removals (if present then
      (if huge then [.remove r] else []) ++ .read frame :: E else []))
      (if present then if huge then [r] else L else []) := by
  cases present with
  | false => exact sameRemovals_refl []
  | true =>
    rw [if_pos rfl, if_pos rfl, removals_cons_read]
    cases huge with
    | false => exact hnot rfl
    | true => exact sameRemovals_cons hhuge

theorem sameRemovals2 (h3 : (t.entry3 l4 l3).isHuge = false) :
    RangeSet.SameRemovals 256 (Event.removals (t.events2 l4 l3)) (t.leaves2 l4 l3) := by
  rw [events2, leaves2, Event.removals_flatMap]
  refine RangeSet.SameRemovals.flatMap (fun l2 => ?_) _
  refine sameRemovals_entry cover_events1 fun _ => ?_
  have hchild : t.child1 l4 l3 l2 = (t.entry2 l4 l3 l2).frame := by
    rw [child1, h3]
    rfl
  rw [hchild, removals_events1]
  exact sameRemovals_refl _

/-- **The walk takes out the mappings.** -/
theorem sameRemovals : RangeSet.SameRemovals 256 (Event.removals t.events) t.leaves := by
  rw [events, leaves, Event.removals_flatMap]
  refine RangeSet.SameRemovals.flatMap (fun l4 => ?_) _
  have h3 : RangeSet.SameRemovals 256 (Event.removals (t.events3 l4)) (t.leaves3 l4) := by
    rw [events3, leaves3, Event.removals_flatMap]
    exact RangeSet.SameRemovals.flatMap (fun l3 => sameRemovals_entry cover_events2 sameRemovals2) _
  cases (t.entry4 l4).isPresent with
  | false => exact sameRemovals_refl []
  | true => exact h3
end RecursivePageTable
end WasabiOS
