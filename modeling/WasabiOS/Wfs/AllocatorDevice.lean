import WasabiOS.Wfs.AllocatorSpec

/-!
# Wfs/AllocatorDevice — the free list on the device

`write` takes the blocks for the list out of the list itself, and chains them; `load` follows the
chain.  The free list makes the round trip.  What does not is the record of where the list is stored:
`write` leaves `on_disk` empty and `self_on_disk` without blocks, so the next `write` does not know
which blocks the old list occupies and never gives them back.

**`write_load_differs`**: after every successful `write`, `load` returns the same free list and a
different `on_disk` and `self_on_disk`, and one more `write` loses blocks.
-/

open Machinery Prog
namespace WasabiOS
open BlockGroupList List Nat
namespace BlockAllocator
variable {ε : Type} {α : Type} {r : BlockGroup} {start : LBA} {count : ℕ} {ls : List LBA} {a' a : BlockAllocator}

/-! ## Chunks -/

theorem flatten_pieces {n : ℕ} : ∀ {k : ℕ} {l : List α},
    ((List.range k).map fun i => (l.drop (i * n)).take n).flatten = l.take (k * n)
  | 0, l => by
    rw [zero_mul, take_zero]
    rfl
  | k + 1, l => by
    have ih := flatten_pieces (n := n) (k := k) (l := l.drop n)
    simp only [drop_drop] at ih
    rw [range_succ_eq_map, map_cons, map_map, flatten_cons]
    simp only [Function.comp_def, zero_mul, drop_zero, succ_eq_add_one, add_mul, one_mul]
    simp only [add_comm n] at ih
    rw [ih, add_comm (k * n), take_add]

/-- The first chunks are the front of the list. -/
theorem take_chunks_flatten {n k : ℕ} {l : List α} (h : k ≤ (chunks n l).length) :
    ((chunks n l).take k).flatten = l.take (k * n) := by
  rw [chunks, length_map, length_range] at h
  rw [chunks, ← map_take, take_range, min_eq_left h, flatten_pieces]

theorem chunks_flatten {n : ℕ} (hn : 0 < n) (l : List α) : (chunks n l).flatten = l :=
  flatten_pieces.trans (take_of_length_le (le_countsRequiredFor_mul hn))

theorem length_chunks {n : ℕ} {l : List α} : (chunks n l).length = countsRequiredFor n l.length := by simp [chunks]

theorem length_le_of_mem_chunks {n : ℕ} {l c : List α} (h : c ∈ chunks n l) : c.length ≤ n := by
  obtain ⟨i, -, rfl⟩ := mem_map.1 h
  exact length_take_le _ _

/-! ## Taking the blocks for the list -/

/-- Freeing changes nothing but the free list and the dirty flag, and asserts consistency. -/
theorem freeBlocks_wlp : ∀ {bs : List LBA} {a : BlockAllocator}, Separated a.free →
    (freeBlocks bs : Prog BlockAllocator ε Unit).wlp
      (fun _ a' => Separated a'.free ∧ a'.onDisk = a.onDisk ∧ a'.selfOnDisk = a.selfOnDisk ∧
        (bs = [] → a'.free = a.free)) (fun _ _ => False) a
  | [], _, hc => ⟨hc, rfl, rfl, fun _ => rfl⟩
  | b :: bs, a, _ => by
    simp only [freeBlocks, freeBlock, freeGroup, wlp_bind, wlp_get, wlp_lift, wlp_put, wlp_assertConsistent]
    intro l _ hsep
    refine wlp_mono (freeBlocks_wlp (a := { a with free := l, dirty := true }) hsep)
      (fun _ a' h => ⟨h.1, h.2.1, h.2.2.1, fun hnil => absurd hnil (cons_ne_nil b bs)⟩) fun _ _ h => h

/-- **The blocks for the list itself** are one group, taken in the first round: taking it does not
make the free list longer. -/
theorem allocateForSelf_wlp {b tries n : ℕ} (hb : 1 ≤ b)
    (hfit : countsRequiredFor BLOCK_RANGES_COUNT_PER_BLOCK a.free.length ≤ b)
    (hc : Separated a.free) :
    (allocateForSelf b tries n).wlp (fun list a' => ∃ r l', list = ⟨[r]⟩ ∧ a' = { a with free := l', dirty := true } ∧
        Taken b a.free r l') (fun _ _ => True) a := by
  unfold allocateForSelf
  rw [wlp_bind]
  refine wlp_mono (allocate_wlp hb hc) ?_ fun _ _ _ => trivial
  rintro _ _ ⟨r, l', rfl, rfl, ht⟩
  have hcount : blockCount ⟨[r]⟩ = b := by simp [blockCount, ht.count]
  have henough : blockCount ⟨[r]⟩ ≥ countsRequiredFor BLOCK_RANGES_COUNT_PER_BLOCK l'.length := by
    rw [hcount]
    exact le_trans (countsRequiredFor_mono ht.length_le) hfit
  simp only [wlp_bind, wlp_get]
  rw [if_pos henough]
  exact ⟨r, l', rfl, rfl, ht⟩

theorem mapM_add_eq_ok : ∀ {ns : List ℕ} {ls : List LBA},
    ns.mapM start.add = .ok ls → ls.map LBA.get = ns.map (start.get + ·)
  | [], ls, h => by
    obtain rfl := pure_eq_ok.1 h
    rfl
  | n :: ns, ls, h => by
    rw [mapM_cons] at h
    obtain ⟨lba, hlba, h⟩ := bind_eq_ok.1 h
    obtain ⟨rest, hrest, h⟩ := bind_eq_ok.1 h
    obtain rfl := pure_eq_ok.1 h
    rw [map_cons, map_cons, mapM_add_eq_ok hrest, LBA.add_eq_ok.1 hlba]

/-- The addresses of one group, in order. -/
theorem blockIter_single (h : blockIter ⟨[r]⟩ = .ok ls) :
    ls.map LBA.get = (List.range r.count).map (r.start.get + ·) := by
  obtain ⟨gs, hgs, h⟩ := bind_eq_ok.1 h
  obtain rfl := pure_eq_ok.1 h
  rw [mapM_cons, mapM_nil] at hgs
  obtain ⟨g, hg, hgs⟩ := bind_eq_ok.1 hgs
  obtain rfl := pure_eq_ok.1 hgs
  rw [flatten_cons, flatten_nil, append_nil]
  exact mapM_add_eq_ok hg

theorem head?_blockIter (h : blockIter ⟨[r]⟩ = .ok ls) : ls.head? = some r.start := by
  have hmap := blockIter_single h
  obtain ⟨n, hn⟩ := exists_eq_succ_of_ne_zero r.count_pos.ne'
  rw [hn, range_succ_eq_map, map_cons] at hmap
  obtain ⟨lba, rest, rfl, hlba, -⟩ := map_eq_cons_iff.1 hmap
  exact congrArg some (LBA.ext hlba)

theorem exists_mapM_add : ∀ {ns : List ℕ}, (∀ n ∈ ns, start.get + n < u64Size - 1) → ∃ ls, ns.mapM start.add = .ok ls
  | [], _ => ⟨[], rfl⟩
  | n :: ns, h => by
    obtain ⟨hn, hns⟩ := forall_mem_cons.1 h
    obtain ⟨ls, hls⟩ := exists_mapM_add hns
    exact ⟨_ :: ls, by rw [mapM_cons, LBA.add_ok hn, ok_bind, hls, ok_bind]; rfl⟩

/-- A group in the address space has addresses. -/
theorem exists_blockIter (h : r.past ≤ u64Size - 1) : ∃ ls, blockIter ⟨[r]⟩ = .ok ls := by
  have hbound : ∀ n ∈ List.range r.count, r.start.get + n < u64Size - 1 := by
    intro n hn
    have hlt : n < r.count := mem_range.1 hn
    have hpast : r.start.get + r.count ≤ u64Size - 1 := h
    omega
  obtain ⟨ls, hls⟩ := exists_mapM_add hbound
  exact ⟨_, by rw [blockIter, mapM_cons, hls, mapM_nil]; rfl⟩

theorem nodup_of_map_get (h : ls.map LBA.get = (List.range r.count).map (r.start.get + ·)) : ls.Nodup := by
  have hnd : (ls.map LBA.get).Nodup := by
    rw [h]
    exact nodup_range.map fun _ _ => add_left_cancel
  exact hnd.of_map _

/-- **The blocks of an allocation** are distinct and as many as were asked for, which is a power of
two. -/
theorem blocks_of_allocate {list : BlockGroupList}
    (hcount : 1 ≤ count) (halloc : allocate count a = .ok list a') (hiter : list.blockIter = .ok ls) :
    count.isPowerOfTwo ∧ ls.Nodup ∧ ls.length = count := by
  obtain ⟨hpow, r, rfl, hr⟩ := allocate_single hcount halloc
  have haddr := blockIter_single hiter
  have hlength := congrArg List.length haddr
  rw [length_map, length_map, length_range] at hlength
  exact ⟨⟨_, hpow⟩, nodup_of_map_get haddr, hlength.trans hr⟩

/-- Some allocator has any power of two of blocks. -/
theorem exists_allocate (hpow : count.isPowerOfTwo) (hlt : count < u64Size) :
    ∃ a list a' ls, Separated a.free ∧ Addressable a.free ∧ allocate count a = .ok list a' ∧
      list.blockIter = .ok ls := by
  obtain ⟨k, hk⟩ := hpow
  have hpos : 0 < count := hk ▸ Nat.two_pow_pos k
  let g : BlockGroup := ⟨LBA.ZERO, count, hpos, hlt⟩
  have hpast : g.past = count := zero_add count
  obtain ⟨ls, hiter⟩ := exists_blockIter (r := g) (by omega)
  refine ⟨⟨[g], none, [], false⟩, _, _, ls, pairwise_singleton _ _, fun x hx => ?_,
    allocate_whole (g := g) ⟨k, hk⟩, hiter⟩
  obtain rfl := mem_singleton.1 hx
  exact hpast.trans_lt hlt

/-- An allocation out of addressable groups is addressable. -/
theorem Taken.past_lt {size : ℕ} {l l' : List BlockGroup} (h : Taken size l r l')
    (hv : Addressable l) : r.past < u64Size := by
  have hpos := r.start_lt_past
  have hlast : r.past - 1 ∈ cover l := h.subset (BlockGroup.mem_blocks.2 ⟨by omega, by omega⟩)
  obtain ⟨g, hg, -, hlt⟩ := IntervalList.mem_cover.1 hlast
  have hvalid : g.past < u64Size := hv g hg
  omega

/-- A consistent allocator hands out blocks that have addresses, or says that it has none. -/
theorem allocate_total (hcount : 1 ≤ count) (hc : Separated a.free) (hv : Addressable a.free) :
    (∃ list a' ls, allocate count a = .ok list a' ∧ list.blockIter = .ok ls) ∨ ∃ e, allocate count a = .err e a := by
  rw [allocate_apply hcount]
  split_ifs with hpow
  · have hgroup := allocateGroup_wp hcount hc hv
    unfold Prog.wp at hgroup
    cases hg : allocateGroup count a with
    | fault f => exact absurd hgroup (by rw [hg]; exact id)
    | err e a' =>
      rw [hg] at hgroup
      obtain ⟨-, rfl, -⟩ := hgroup
      exact .inr ⟨_, rfl⟩
    | ok r a' =>
      rw [hg] at hgroup
      obtain ⟨l', -, htaken⟩ := hgroup
      obtain ⟨ls, hiter⟩ := exists_blockIter (le_sub_one_of_lt (htaken.past_lt hv))
      exact .inl ⟨_, _, ls, rfl, hiter⟩
  · exact .inr ⟨_, rfl⟩

/-- The list needs a block even if it is empty. -/
theorem one_le_blocksRequired (n : ℕ) : 1 ≤ countsRequiredFor BLOCK_RANGES_COUNT_PER_BLOCK (max n 1) :=
  have hone : 1 ≤ countsRequiredFor BLOCK_RANGES_COUNT_PER_BLOCK 1 := by decide
  le_trans hone (countsRequiredFor_mono (le_max_right n 1))

/-- What `prepareWrite` did to get from `a` to `a'`: `l1` is the free list once the blocks of the old
list are given back, and the group `r` is taken from it. -/
structure Prepared (a a' : BlockAllocator) (l1 : List BlockGroup) (r : BlockGroup) : Prop where
  separated : Separated l1
  free_eq : a.selfOnDisk = [] → l1 = a.free
  taken : Taken r.count l1 r a'.free
  room : countsRequiredFor BLOCK_RANGES_COUNT_PER_BLOCK a'.free.length ≤ r.count
  onDisk : a'.onDisk = none
  selfOnDisk : a'.selfOnDisk = []

theorem prepareWrite_wlp (hc : Separated a.free) :
    prepareWrite.wlp (fun list a' => ∃ l1 r, list = ⟨[r]⟩ ∧ Prepared a a' l1 r) (fun _ _ => True)
      a := by
  unfold prepareWrite
  simp only [wlp_bind, wlp_get, wlp_put]
  refine wlp_mono (freeBlocks_wlp (a := { a with selfOnDisk := [], onDisk := none }) hc) ?_ fun _ _ h => h.elim
  rintro _ a1 ⟨hsep, honDisk, hself, heq⟩
  refine wlp_mono (allocateForSelf_wlp ?_ ?_ hsep) ?_ fun _ _ h => h
  · exact one_le_blocksRequired a1.free.length
  · exact countsRequiredFor_mono (le_max_left a1.free.length 1)
  · rintro _ _ ⟨r, l', rfl, rfl, ht⟩
    refine ⟨a1.free, r, rfl, hsep, heq, ht.count ▸ ht, ?_, honDisk, hself⟩
    rw [ht.count]
    exact countsRequiredFor_mono (le_trans ht.length_le (le_max_left _ _))

/-! ## The chain of blocks -/

section Disk
variable [BlockLayout] {d : Disk Block}

/-- One block of the chain: the first chunk, or an empty block once the chunks are used up. -/
theorem writeChunks_cons {cs : List (List BlockGroup)} {lba : LBA} :
    writeChunks cs (lba :: ls) d = writeChunks cs.tail ls (d.write lba (.freeBlockGroups
      { free := StaticVec.new.extend (cs.headD []), next := ls.head?.map DevicePointer.mk })) := by
  cases cs with
  | nil => rfl
  | cons c cs => rfl

/-- **A written chain is read back**, from any device that still has its blocks. -/
theorem writeChunks_spec : ∀ {ls : List LBA} {cs : List (List BlockGroup)} {d : Disk Block},
    ls.Nodup → cs.length ≤ ls.length → (∀ c ∈ cs, c.length ≤ BLOCK_RANGES_COUNT_PER_BLOCK) →
      ∃ d', writeChunks cs ls d = .ok () d' ∧ (∀ x ∉ ls, d'.blocks x = d.blocks x) ∧
        ∀ {dev : Disk Block} {fuel : ℕ}, (∀ x ∈ ls, dev.blocks x = d'.blocks x) → ls.length ≤ fuel →
            loadChain fuel (ls.head?.map DevicePointer.mk) dev = .ok (cs.flatten, ls) dev
  | [], cs, d, _, hlen, _ => by
    obtain rfl : cs = [] := length_eq_zero_iff.1 (le_zero.1 hlen)
    refine ⟨d, rfl, fun _ _ => rfl, fun {dev fuel} _ _ => ?_⟩
    rw [head?_nil, Option.map_none, loadChain]
    rfl
  | lba :: ls, cs, d, hnd, hlen, hcs => by
    obtain ⟨hnot, hnd⟩ := nodup_cons.1 hnd
    have hlen' : cs.tail.length ≤ ls.length := by
      rw [length_tail]
      rw [length_cons] at hlen
      omega
    have hcs' : ∀ c ∈ cs.tail, c.length ≤ BLOCK_RANGES_COUNT_PER_BLOCK := fun c hc => hcs c (mem_of_mem_tail hc)
    have hhead : (cs.headD []).length ≤ BLOCK_RANGES_COUNT_PER_BLOCK := by
      cases cs with
      | nil => exact zero_le _
      | cons c cs => exact hcs c mem_cons_self
    have hflat : cs.headD [] ++ cs.tail.flatten = cs.flatten := by cases cs <;> rfl
    rw [writeChunks_cons]
    obtain ⟨d', hd', hframe, hload⟩ := writeChunks_spec (d := d.write lba _) hnd hlen' hcs'
    refine ⟨d', hd', fun x hx => ?_, fun {dev fuel} hdev hfuel => ?_⟩
    · rw [mem_cons, not_or] at hx
      rw [hframe x hx.2, Disk.write_blocks_of_ne _ _ hx.1]
    · obtain ⟨fuel, rfl⟩ : ∃ n, fuel = n + 1 := ⟨fuel - 1, by rw [length_cons] at hfuel; omega⟩
      have hblock : dev.blocks lba = .freeBlockGroups
          { free := StaticVec.new.extend (cs.headD []), next := ls.head?.map DevicePointer.mk } := by
        rw [hdev lba mem_cons_self, hframe lba hnot, Disk.write_blocks_self]
      have hread : readPointer (k := .freeBlockGroups) ⟨lba⟩ dev = .ok _ dev := readPointer_disk (congrArg _ hblock)
      have hrest := hload (fun x hx => hdev x (mem_cons_of_mem _ hx)) (le_of_succ_le_succ hfuel)
      rw [head?_cons, Option.map_some, loadChain, bind_apply, hread, andThen_ok, bind_apply, hrest, andThen_ok, ← hflat]
      have htake : (cs.headD []).take BLOCK_RANGES_COUNT_PER_BLOCK = cs.headD [] := take_of_length_le hhead
      rw [StaticVec.toList_extend, StaticVec.toList_new, nil_append, htake]
      rfl

/-! ## Writing -/

/-- What a successful `write` did: it took the group `r`, whose addresses are `ls`, and wrote the
chain there. -/
structure Written (a : BlockAllocator) (d : Disk Block) (p : DevicePointer .freeBlockGroups)
    (a' : BlockAllocator) (d' : Disk Block) (ls : List LBA) : Prop where
  prepared : ∃ l1 r, Prepared a a' l1 r ∧ ls.map LBA.get = (List.range r.count).map (r.start.get + ·)
  head : ls.head? = some p.lba
  chain : writeChunks (chunks BLOCK_RANGES_COUNT_PER_BLOCK a'.free) ls d = .ok () d'

theorem write_eq_ok {d' : Disk Block} {p : DevicePointer .freeBlockGroups}
    (h : write (a, d) = .ok p (a', d')) : ∃ ls, Written a d p a' d' ls := by
  obtain ⟨_, _, hzoom, h⟩ := bind_ok_iff.1 h
  obtain ⟨a0, hassert, rfl⟩ := zoom_eq_ok.1 hzoom
  have hsep := (assertConsistent_eq_ok.1 hassert).1
  rw [(assertConsistent_eq_ok.1 hassert).2] at h
  obtain ⟨_, _, hget, h⟩ := bind_ok_iff.1 h
  cases hget
  have hprep := prepareWrite_wlp hsep
  unfold Prog.wlp at hprep
  cases hp : prepareWrite a with
  | fault f => simp [hp] at h
  | err e a1 => simp [hp] at h
  | ok list new =>
    simp only [hp, Outcome.all_ok] at h hprep
    obtain ⟨l1, r, rfl, hprep⟩ := hprep
    obtain ⟨ls, _, hiter, h⟩ := bind_ok_iff.1 h
    obtain ⟨hls, rfl⟩ := lift_eq_ok.1 hiter
    obtain ⟨first, _, hpeek, h⟩ := bind_ok_iff.1 h
    obtain ⟨hfirst, rfl⟩ := expect_eq_ok.1 hpeek
    obtain ⟨_, _, hwrite, h⟩ := bind_ok_iff.1 h
    obtain ⟨d1, hchain, rfl⟩ := zoom_eq_ok.1 hwrite
    cases h
    exact ⟨ls, ⟨l1, r, { hprep with }, blockIter_single hls⟩, hfirst, hchain⟩

/-! ## Loading what was written -/

section Written
variable {d d' : Disk Block} {p : DevicePointer .freeBlockGroups}
section
variable (h : Written a d p a' d' ls)
include h

theorem Written.separated : Separated a'.free := by
  obtain ⟨_, _, hprep, -⟩ := h.prepared
  exact hprep.taken.separated

/-- **The round trip**: `load` returns the free list that was written, and the blocks it is in. -/
theorem Written.load_eq :
    load p d' = .ok { free := a'.free, onDisk := some p, selfOnDisk := ls, dirty := false } d' := by
  obtain ⟨l1, r, hprep, haddr⟩ := h.prepared
  have hnd := nodup_of_map_get haddr
  have hlen : ls.length = r.count := by
    have := congrArg List.length haddr
    rwa [length_map, length_map, length_range] at this
  have hroom : (chunks BLOCK_RANGES_COUNT_PER_BLOCK a'.free).length ≤ ls.length := by
    rw [length_chunks, hlen]
    exact hprep.room
  obtain ⟨d1, hd1, -, hload⟩ := writeChunks_spec (d := d) hnd hroom fun c => length_le_of_mem_chunks
  obtain rfl : d1 = d' := by
    have heq := hd1.symm.trans h.chain
    cases heq
    rfl
  have hchain := @hload d1 _ (fun _ _ => rfl) (LBA.length_le_addressCount hnd)
  have hcheck : checkConsistent { free := a'.free, onDisk := some p, selfOnDisk := ls, dirty := false } = .ok true :=
    checkConsistent_eq_true.2 h.separated
  rw [h.head, Option.map_some, chunks_flatten (by decide)] at hchain
  rw [load, bind_apply, hchain, andThen_ok]
  simp only [hcheck, lift_ok, pure_bind, assert_true, pure_apply]

theorem Written.onDisk : a'.onDisk = none := by
  obtain ⟨_, _, hprep, -⟩ := h.prepared
  exact hprep.onDisk

theorem Written.selfOnDisk : a'.selfOnDisk = [] := by
  obtain ⟨_, _, hprep, -⟩ := h.prepared
  exact hprep.selfOnDisk

theorem Written.ne_nil : ls ≠ [] := by
  rintro rfl
  exact absurd h.head nofun

/-- If the allocator does not know the blocks of an old list, all blocks of the new one come out of
the free set. -/
theorem Written.card_add (hself : a.selfOnDisk = []) : a'.freeBlockSet.card + ls.length = a.freeBlockSet.card := by
  obtain ⟨l1, r, hprep, haddr⟩ := h.prepared
  have hlen : ls.length = r.blocks.card := by
    have := congrArg List.length haddr
    rwa [length_map, length_map, length_range, ← BlockGroup.card_blocks] at this
  have htaken := hprep.taken
  rw [hprep.free_eq hself] at htaken
  have hcard := Finset.card_sdiff_add_card_eq_card htaken.subset
  rwa [hlen, freeBlockSet, htaken.cover_eq]
end
end Written

/-- **`write` forgets where it wrote.**  After a successful `write`, `load` returns the free list that
was written, but an `on_disk` and a `self_on_disk` the allocator does not have.  So the next `write`
does not give the blocks of this list back, and the free blocks and those of the list on the device
together become fewer. -/
theorem write_load_differs {a a' : BlockAllocator} {d d' : Disk Block}
    {p : DevicePointer .freeBlockGroups} (h : write (a, d) = .ok p (a', d')) :
    ∃ b, load p d' = .ok b d' ∧ b.free = a'.free ∧ b.onDisk ≠ a'.onDisk ∧ b.selfOnDisk ≠ a'.selfOnDisk ∧
      ∀ p₂ a₂ d₂, write (a', d') = .ok p₂ (a₂, d₂) → ∃ b₂, load p₂ d₂ = .ok b₂ d₂ ∧
        a₂.freeBlockSet.card + b₂.selfOnDisk.length < a'.freeBlockSet.card + b.selfOnDisk.length := by
  obtain ⟨ls, hw⟩ := write_eq_ok h
  refine ⟨_, hw.load_eq, rfl, ?_, ?_, fun p₂ a₂ d₂ h₂ => ?_⟩
  · rw [hw.onDisk]
    exact nofun
  · rw [hw.selfOnDisk]
    exact hw.ne_nil
  · obtain ⟨ls₂, hw₂⟩ := write_eq_ok h₂
    refine ⟨_, hw₂.load_eq, ?_⟩
    have hcard := hw₂.card_add hw.selfOnDisk
    have hpos := length_pos_of_ne_nil hw.ne_nil
    change a₂.freeBlockSet.card + ls₂.length < a'.freeBlockSet.card + ls.length
    omega
end Disk

/-- Blocks 1 to 7 of a device of 10 are free. -/
def sevenFree : BlockAllocator × Disk Block :=
  ({ free := [⟨⟨1, by decide⟩, 7, by decide, by decide⟩], onDisk := none, selfOnDisk := [],
     dirty := true },
    { size := 10, blocks := fun _ => .data [], writes := [] })

/-- The list of seven free blocks is written to block 1, and the blocks 2 to 7 stay free. -/
theorem write_load_differs_sevenFree :
    letI := noBytes
    ∃ p a' d', write sevenFree = .ok p (a', d') ∧ ∃ b, load p d' = .ok b d' ∧ b.free = a'.free ∧
      b.onDisk ≠ a'.onDisk ∧ b.selfOnDisk ≠ a'.selfOnDisk := by
  letI := noBytes
  obtain ⟨b, hload, hfree, honDisk, hself, -⟩ := write_load_differs (a := sevenFree.1) (d := sevenFree.2) rfl
  exact ⟨_, _, _, rfl, b, hload, hfree, honDisk, hself⟩

/-- A consistent allocator whose `write` succeeds, after which `load` does not yield the same
allocator. -/
theorem not_write_load_same :
    letI := noBytes
    sevenFree.1.checkConsistent = .ok true ∧ ∃ p a' d', write sevenFree = .ok p (a', d') ∧
      ¬ ∃ b d'', load p d' = .ok b d'' ∧ b.free = a'.free ∧ b.onDisk = a'.onDisk ∧ b.selfOnDisk = a'.selfOnDisk := by
  refine ⟨rfl, _, _, _, rfl, ?_⟩
  rintro ⟨b, d'', hload, -, honDisk, -⟩
  cases hload
  cases honDisk
end BlockAllocator
end WasabiOS
