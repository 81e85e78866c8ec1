import WasabiOS.Wfs.AllocatorSpec

/-!
# Wfs/AllocatorExact — which blocks an allocation takes, and when it fails

On groups that end below `LBA::MAX`, `allocateGroup` and `markUsed` do what they say
(`allocateGroup_markUsed_exact`).  `allocate` does not put a request together from smaller groups: it
finds the blocks exactly if a single group is to be taken (`allocatesAll_iff`).
-/

open Machinery Prog
namespace WasabiOS
namespace BlockAllocator
variable {a : BlockAllocator} {size count : ℕ} {lba : LBA} {g : BlockGroup} {l₁ l₂ : List BlockGroup}

/-- A group of minimal sufficient length. -/
structure BestFit (size : ℕ) (free : List BlockGroup) (g : BlockGroup) : Prop where
  mem : g ∈ free
  room : size ≤ g.count
  minimal : ∀ x ∈ free, size ≤ x.count → g.count ≤ x.count

theorem FitsBest.bestFit (h : FitsBest size l₁ g l₂) :
    BestFit size (l₁ ++ g :: l₂) g where
  mem := List.mem_append_cons_self
  room := h.room
  minimal x hx hroom := by
    rcases mem_focus.1 hx with rfl | hx | hx
    · exact le_rfl
    · exact (h.before x hx hroom).le
    · exact h.after x hx hroom

/-! ## One group, one block -/

/-- The last block of each group is below `LBA::MAX`. -/
def EndsBelowMax (free : List BlockGroup) : Prop := ∀ g ∈ free, ∃ last, g.endLba = .ok last ∧ last < LBA.MAX

theorem EndsBelowMax.past_lt {free : List BlockGroup} (h : EndsBelowMax free) (hg : g ∈ free) :
    g.past < u64Size - 1 := by
  obtain ⟨last, hlast, -⟩ := h g hg
  exact (BlockGroup.endLba_eq_ok.1 hlast).1

/-- The front of the group that fits best is taken. -/
theorem allocateGroup_bestFit (hsize : 1 ≤ size) (hc : Separated a.free) (hend : EndsBelowMax a.free) :
    (allocateGroup size).wp (fun r a' => (∃ g, BestFit size a.free g ∧ r.start = g.start ∧ r.count = size) ∧
        Separated a'.free ∧ a'.freeBlockSet = a.freeBlockSet \ r.blocks)
      (fun _ a' => a' = a ∧ ∀ g ∈ a.free, g.count < size) a := by
  unfold Prog.wp
  rcases allocateGroup_apply hsize hc with ⟨hsmall, happly⟩ | ⟨l₁, g, l₂, hl, hfits, hcut, -⟩
  · rw [happly]
    exact ⟨rfl, hsmall⟩
  · have hbest : BestFit size a.free g := hl ▸ hfits.bestFit
    have hpast : g.start.get + g.count < u64Size - 1 := hend.past_lt hbest.mem
    have hroom := hbest.room
    obtain ⟨r, l', hstart, htaken, happly⟩ := hcut (.inr (by omega))
    rw [happly]
    exact ⟨⟨g, hbest, hstart, htaken.count⟩, htaken.separated, htaken.cover_eq⟩

/-- The group of a block is found if the block is free. -/
theorem findGroup_eq : ∀ {l : List BlockGroup}, (∀ g ∈ l, g.past < u64Size - 1) →
    ∃ o, findGroup lba l = .ok o ∧ (o = none ↔ lba.get ∉ cover l)
  | [], _ => ⟨none, rfl, iff_of_true rfl (Finset.notMem_empty _)⟩
  | g :: gs, h => by
    obtain ⟨hg, hgs⟩ := List.forall_mem_cons.1 h
    obtain ⟨o, ho, hiff⟩ := findGroup_eq hgs
    rw [findGroup, contains_eq hg, ho, cover_cons, Finset.notMem_union]
    by_cases hmem : lba.get ∈ g.blocks
    · refine ⟨some 0, by rw [decide_eq_true hmem]; rfl, iff_of_false (by simp) fun h => h.1 hmem⟩
    · refine ⟨o.map (· + 1), by rw [decide_eq_false hmem]; rfl, ?_⟩
      rw [Option.map_eq_none_iff, hiff, and_iff_right hmem]

theorem markUsed_exact (hc : Separated a.free) (hend : EndsBelowMax a.free) : (markUsed lba).wp
      (fun _ a' => lba.get ∈ a.freeBlockSet ∧ Separated a'.free ∧ a'.freeBlockSet = a.freeBlockSet \ {lba.get})
      (fun _ a' => a' = a ∧ lba.get ∉ a.freeBlockSet) a := by
  obtain ⟨o, hfind, hiff⟩ : ∃ o, findGroup lba a.free = .ok o ∧ (o = none ↔ lba.get ∉ cover a.free) :=
    findGroup_eq fun g hg => hend.past_lt hg
  unfold Prog.wp
  cases o with
  | none =>
    unfold markUsed
    rw [bind_apply, get_apply, andThen_ok, hfind]
    exact ⟨rfl, hiff.1 rfl⟩
  | some i =>
    obtain ⟨l', hmark, hsep, hcover⟩ := markUsed_of_find hc hfind
    rw [hmark]
    exact ⟨not_not.1 fun h => Option.some_ne_none i (hiff.2 h), hsep, hcover⟩

/-- **`allocate_group` and `mark_used` are exact** on a consistent list whose groups end below `LBA::MAX`:
the first blocks of a group of minimal sufficient length are taken, and an allocation fails exactly if no
group is long enough; a block is taken out of the list, and it fails exactly if the block is not free. -/
theorem allocateGroup_markUsed_exact (hc : a.checkConsistent = .ok true) (hend : EndsBelowMax a.free) :
    (∀ size, 1 ≤ size → (allocateGroup size).wp
      (fun r a' => (∃ g, BestFit size a.free g ∧ r.start = g.start ∧ r.count = size) ∧
        a'.checkConsistent = .ok true ∧ a'.freeBlockSet = a.freeBlockSet \ r.blocks)
      (fun _ a' => a' = a ∧ ∀ g ∈ a.free, g.count < size) a) ∧
    ∀ lba : LBA, (markUsed lba).wp (fun _ a' => lba.get ∈ a.freeBlockSet ∧ a'.checkConsistent = .ok true ∧
        a'.freeBlockSet = a.freeBlockSet \ {lba.get})
      (fun _ a' => a' = a ∧ lba.get ∉ a.freeBlockSet) a := by
  simp only [checkConsistent_eq_true] at *
  exact ⟨fun size hsize => allocateGroup_bestFit hsize hc hend, fun lba => markUsed_exact hc hend⟩

/-- Blocks 0 to 9 and 20 to 23 are free. -/
def twoFree : BlockAllocator :=
  ⟨[⟨.ZERO, 10, by decide, by decide⟩, ⟨⟨20, by decide⟩, 4, by decide, by decide⟩], none, [], false⟩

/-- Three blocks come from the shorter group. -/
theorem allocateGroup_markUsed_twoFree : ((allocateGroup 3).wp
      (fun r a' => (∃ g, BestFit 3 twoFree.free g ∧ r.start = g.start ∧ r.count = 3) ∧
        a'.checkConsistent = .ok true ∧ a'.freeBlockSet = twoFree.freeBlockSet \ r.blocks)
      (fun _ a' => a' = twoFree ∧ ∀ g ∈ twoFree.free, g.count < 3) twoFree) := by
  refine (allocateGroup_markUsed_exact rfl fun g hg => ?_).1 3 (by decide)
  rcases List.mem_pair.1 hg with rfl | rfl
  · exact ⟨_, rfl, by decide⟩
  · exact ⟨_, rfl, by decide⟩

/-! ## Many blocks -/

/-- **Allocation is complete**: if that many blocks are free, it returns groups of them, and it says that
the device is full otherwise. -/
def AllocatesAll (count : ℕ) (a : BlockAllocator) : Prop :=
  if count ≤ a.freeBlockSet.card then
    ∃ list a', allocate count a = .ok list a' ∧ list.groups.Pairwise (fun g g' => Disjoint g.blocks g'.blocks) ∧
      (∀ g ∈ list.groups, g.blocks ⊆ a.freeBlockSet ∧ Disjoint g.blocks a'.freeBlockSet) ∧
      list.blockCount = count
  else ∃ a', allocate count a = .err (.blockDeviceFull count) a' ∧ a'.free = a.free

/-- What the loop of `allocate` can do: the count is a power of two and a single group is to be cut. -/
def OneGroup (count : ℕ) (free : List BlockGroup) : Prop :=
  count.isPowerOfTwo ∧ ∃ g, BestFit count free g ∧ CutsAt count g

theorem isPowerOfTwo_iff (hcount : 1 ≤ count) : count.isPowerOfTwo ↔ count = 2 ^ Nat.log2 count := by
  constructor
  · rintro ⟨k, rfl⟩
    rw [Nat.log2_two_pow]
  · intro h
    exact ⟨_, h⟩

/-- A group that fits as well as one that can be cut can be cut, if it is the first. -/
theorem FitsBest.cutsAt {x : BlockGroup} (hc : Separated (l₁ ++ g :: l₂))
    (hg : FitsBest size l₁ g l₂) (hx : BestFit size (l₁ ++ g :: l₂) x) (hcut : CutsAt size x) :
    CutsAt size g := by
  have hsame : g.count = x.count := le_antisymm (hg.bestFit.minimal x hx.mem hx.room)
    (hx.minimal g hg.bestFit.mem hg.room)
  rcases hcut with hwhole | haddr
  · exact .inl (hsame.trans hwhole)
  · right
    rcases mem_focus.1 hx.mem with rfl | hbefore | hafter
    · exact haddr
    · exact absurd (hg.before x hbefore hx.room) (by omega)
    · have hlt : g.start.get + g.count < x.start.get :=
        (List.pairwise_cons.1 (List.pairwise_append.1 hc).2.1).1 x hafter
      omega

theorem count_le_card (hg : g ∈ a.free) : g.count ≤ a.freeBlockSet.card := by
  rw [← g.card_blocks]
  refine Finset.card_le_card fun b hb => ?_
  obtain ⟨hlo, hhi⟩ := BlockGroup.mem_blocks.1 hb
  exact IntervalList.mem_cover.2 ⟨g, hg, hlo, hhi⟩

/-- Without a group that is large enough, `allocate` says that the device is full. -/
theorem allocate_eq_full (hcount : 1 ≤ count) (h : count ≠ 2 ^ Nat.log2 count ∨ ∃ e, allocateGroup count a = .err e a) :
    allocate count a = .err (.blockDeviceFull count) a := by
  rw [allocate_apply hcount]
  split_ifs with hpow
  · obtain ⟨e, happly⟩ := h.resolve_left (not_not.2 hpow)
    rw [happly]
  · rfl

/-- **`allocate` is complete exactly where one group does**: for a power of two, if the group that fits best
can be cut, and where it has to fail. -/
theorem allocatesAll_iff (hcount : 1 ≤ count) (hc : a.checkConsistent = .ok true) :
    AllocatesAll count a ↔ (count ≤ a.freeBlockSet.card → OneGroup count a.free) := by
  rw [checkConsistent_eq_true] at hc
  unfold AllocatesAll OneGroup
  rw [isPowerOfTwo_iff hcount]
  have hfull : allocate count a = .err (.blockDeviceFull count) a → ¬ ∃ list a', allocate count a = .ok list a' ∧
        list.groups.Pairwise (fun g g' => Disjoint g.blocks g'.blocks) ∧
        (∀ g ∈ list.groups, g.blocks ⊆ a.freeBlockSet ∧ Disjoint g.blocks a'.freeBlockSet) ∧
        list.blockCount = count := by
    rintro hfull ⟨list, a', hok, -⟩
    rw [hfull] at hok
    cases hok
  rcases allocateGroup_apply hcount hc with ⟨hsmall, happly⟩ | ⟨l₁, g, l₂, hl, hfits, hcut, hpanic⟩
  · -- no group is large enough
    have herr := allocate_eq_full hcount (.inr ⟨_, happly⟩)
    split_ifs with hcard
    · refine iff_of_false (hfull herr) fun h => ?_
      obtain ⟨-, g, hbest, -⟩ := h hcard
      exact absurd (hsmall g hbest.mem) (not_lt.2 hbest.room)
    · exact iff_of_true ⟨a, herr, rfl⟩ fun h => absurd h hcard
  · have hbest : BestFit count a.free g := hl ▸ hfits.bestFit
    have hcard : count ≤ a.freeBlockSet.card := hbest.room.trans (count_le_card hbest.mem)
    rw [if_pos hcard, forall_prop_of_true hcard]
    by_cases hpow : count = 2 ^ Nat.log2 count
    · rw [allocate_apply hcount, if_pos hpow, and_iff_right hpow]
      by_cases hg : CutsAt count g
      · obtain ⟨r, l', -, htaken, happly⟩ := hcut hg
        refine iff_of_true ⟨⟨[r]⟩, _, by rw [happly], List.pairwise_singleton _ r, fun x hx => ?_, ?_⟩ ⟨g, hbest, hg⟩
        · obtain rfl := List.mem_singleton.1 hx
          refine ⟨htaken.subset, ?_⟩
          show Disjoint x.blocks (cover l')
          rw [htaken.cover_eq]
          exact Finset.disjoint_sdiff
        · exact htaken.count
      · refine iff_of_false ?_ ?_
        · rintro ⟨list, a', hok, -⟩
          rw [hpanic hg] at hok
          cases hok
        · rintro ⟨x, hx, hxcut⟩
          rw [hl] at hx hc
          exact hg (hfits.cutsAt hc hx hxcut)
    · exact iff_of_false (hfull (allocate_eq_full hcount (.inl hpow))) fun h => hpow h.1

theorem allocatesAll_four : AllocatesAll 4 twoFree := by
  refine (allocatesAll_iff (by decide) rfl).2 fun _ => ⟨⟨2, rfl⟩, _,
    ⟨List.mem_cons_of_mem _ List.mem_cons_self, le_rfl, fun x _ hroom => hroom⟩, .inl rfl⟩

/-- Ten blocks in a row are free, and three are not found. -/
theorem not_allocatesAll_three : ¬ AllocatesAll 3 twoFree := by
  intro h
  unfold AllocatesAll at h
  rw [if_pos (by decide)] at h
  obtain ⟨list, a', hok, -⟩ := h
  have hfull : allocate 3 twoFree = .err (.blockDeviceFull 3) twoFree := rfl
  rw [hfull] at hok
  cases hok
end BlockAllocator
end WasabiOS
