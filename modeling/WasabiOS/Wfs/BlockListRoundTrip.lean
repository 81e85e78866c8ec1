import WasabiOS.Wfs.AllocatorDevice
import WasabiOS.Wfs.MemStructs

/-!
# Wfs/BlockListRoundTrip — block lists are read back

A list of more than one group is written as a chain of list blocks, 255 groups in each.  The number of
blocks is computed from the number of groups and the chain from the chunks of groups; both agree, so every
block that is allocated becomes a link of the chain (`read_of_write`).
-/

open Machinery Prog
namespace WasabiOS
open BlockAllocator List

/-- The blocks, each once and in order, are what following the chain from the pointer visits, and they hold
the groups. -/
def HoldsGroups (blocks : LBA → Block) : List LBA → List BlockGroup → Option (DevicePointer .blockList) → Prop
  | [], groups, ptr => groups = [] ∧ ptr = none
  | lba :: lbas, groups, ptr => ptr = some ⟨lba⟩ ∧ ∃ (block : FsBlockList) (rest : List BlockGroup),
      blocks lba = .blockList block ∧ groups = block.blocks.toList ++ rest ∧ HoldsGroups blocks lbas rest block.next

/-- The list blocks that are reached from a head, and the groups it leads to. -/
def BlockListHead.Holds (blocks : LBA → Block) (lbas : List LBA) (groups : List BlockGroup) : BlockListHead → Prop
  | .single group => lbas = [] ∧ groups = [group]
  | .list ptr => HoldsGroups blocks lbas groups (some ptr)

/-- The blocks the allocator hands out for the list. -/
def BlockList.Takes (a a' : BlockAllocator) (lbas : List LBA) : BlockList → Prop
  | .single _ => a' = a ∧ lbas = []
  | .vec _ => ∃ count list, allocate count a = .ok list a' ∧ list.blockIter = .ok lbas

namespace BlockList
section Disk
variable [BlockLayout] {lbas : List LBA} {groups : List BlockGroup} {d d' : Disk Block}
  {ptr : Option (DevicePointer .blockList)} {a a' : BlockAllocator} {head : BlockListHead} {l : BlockList}

theorem readChain_of_holds {fuel : ℕ} (h : HoldsGroups d.blocks lbas groups ptr) (hfuel : lbas.length ≤ fuel) :
    readChain fuel ptr d = .ok groups d := by
  induction lbas generalizing groups ptr fuel with
  | nil =>
    obtain ⟨rfl, rfl⟩ := h
    cases fuel <;> rfl
  | cons lba lbas ih =>
    obtain ⟨rfl, block, rest, hblock, rfl, hrest⟩ := h
    obtain ⟨fuel, rfl⟩ : ∃ n, fuel = n + 1 := ⟨fuel - 1, by rw [length_cons] at hfuel; omega⟩
    have hptr : readPointer (k := .blockList) ⟨lba⟩ d = .ok block d := readPointer_disk (congrArg _ hblock)
    rw [readChain, bind_apply, mapErr_ok hptr, andThen_ok, bind_apply, ih hrest (Nat.le_of_succ_le_succ hfuel)]
    rfl

/-- **Writing the chain**, a block for each chunk. -/
theorem writeBlocks_spec {cs : List (List BlockGroup)} (hlen : lbas.length = cs.length)
    (hcs : ∀ c ∈ cs, c.length ≤ BLOCK_LIST_GROUP_COUNT) :
    ∃ ws, writeBlocks lbas cs d = .ok () (d.writeAll ws) ∧ ws.map Prod.fst = lbas ∧
      ∀ {blocks : LBA → Block}, (∀ w ∈ ws, blocks w.1 = w.2) →
        HoldsGroups blocks lbas cs.flatten (lbas.head?.map DevicePointer.mk) := by
  induction lbas generalizing cs d with
  | nil =>
    obtain rfl : cs = [] := length_eq_zero_iff.1 hlen.symm
    exact ⟨[], rfl, rfl, fun _ => ⟨rfl, rfl⟩⟩
  | cons lba lbas ih =>
    obtain ⟨c, cs, rfl⟩ := exists_cons_of_length_eq_add_one hlen.symm
    obtain ⟨hc, hcs⟩ := forall_mem_cons.1 hcs
    let block : FsBlockList := ⟨StaticVec.collect c, lbas.head?.map DevicePointer.mk⟩
    obtain ⟨ws, hws, hfst, hholds⟩ := ih (d := d.write lba (.blockList block)) (Nat.succ_injective hlen) hcs
    refine ⟨(lba, .blockList block) :: ws, hws, by rw [map_cons, hfst], fun {blocks} hblocks => ?_⟩
    obtain ⟨hblock, hblocks⟩ := forall_mem_cons.1 hblocks
    refine ⟨rfl, block, cs.flatten, hblock, ?_, hholds hblocks⟩
    rw [StaticVec.toList_collect, take_of_length_le hc]
    rfl

/-- What a successful `write` of several groups did. -/
theorem write_vec_eq_ok (h : (vec groups).write (a, d) = .ok head (a', d')) :
    ∃ count list lbas ptr, allocate count a = .ok list a' ∧ list.blockIter = .ok lbas ∧ lbas.Nodup ∧
      lbas.length = (chunks BLOCK_LIST_GROUP_COUNT groups).length ∧ head = .list ptr ∧ lbas.head? = some ptr.lba ∧
          writeBlocks lbas (chunks BLOCK_LIST_GROUP_COUNT groups) d = .ok () d' := by
  obtain ⟨_, _, hassert, h⟩ := bind_ok_iff.1 h
  obtain ⟨hcount, rfl⟩ := assert_eq_ok.1 hassert
  obtain ⟨list, _, hzoom, h⟩ := bind_ok_iff.1 h
  obtain ⟨a1, halloc, rfl⟩ := zoom_eq_ok.1 hzoom
  obtain ⟨first, _, hexpect, h⟩ := bind_ok_iff.1 h
  obtain ⟨hfirst, rfl⟩ := expect_eq_ok.1 hexpect
  obtain ⟨lbas, _, hlift, h⟩ := bind_ok_iff.1 h
  obtain ⟨hiter, rfl⟩ := lift_eq_ok.1 hlift
  obtain ⟨_, _, hwrite, h⟩ := bind_ok_iff.1 h
  obtain ⟨d1, hblocks, rfl⟩ := zoom_eq_ok.1 hwrite
  cases h
  have hcount := of_decide_eq_true hcount
  obtain ⟨-, r, rfl, -⟩ := allocate_single hcount halloc
  obtain rfl := Option.some.inj hfirst
  obtain ⟨-, hnodup, hlen⟩ := blocks_of_allocate hcount halloc hiter
  exact ⟨_, _, lbas, _, halloc, hiter, hnodup, hlen.trans length_chunks.symm, rfl,
    BlockAllocator.head?_blockIter hiter, hblocks⟩

/-- **A block list is read back**, the blocks that are allocated for it are the blocks of its chain, and
these are written once each and no other. -/
theorem read_of_write (h : l.write (a, d) = .ok head (a', d')) :
    read head d' = .ok l d' ∧ ∃ lbas ws, l.Takes a a' lbas ∧ lbas.Nodup ∧ head.Holds d'.blocks lbas l.asSlice ∧
      d'.writes = d.writes ++ ws ∧ ws.map Prod.fst = lbas ∧ ∀ x ∉ lbas, d'.blocks x = d.blocks x := by
  cases l with
  | single group =>
    cases h
    refine ⟨rfl, [], [], ⟨rfl, rfl⟩, nodup_nil, ⟨rfl, rfl⟩, (append_nil _).symm, rfl, fun _ _ => rfl⟩
  | vec groups =>
    obtain ⟨count, list, lbas, ptr, halloc, hiter, hnodup, hlen, rfl, hhead, hwrite⟩ := write_vec_eq_ok h
    obtain ⟨ws, hws, hfst, hholds⟩ := writeBlocks_spec (d := d) hlen fun c => length_le_of_mem_chunks
    obtain rfl : d.writeAll ws = d' := by
      have heq := hws.symm.trans hwrite
      cases heq
      rfl
    have hchain : HoldsGroups (d.writeAll ws).blocks lbas groups (some ptr) := by
      have hchunks := hholds fun w hw => Disk.writeAll_blocks_of_mem (d := d) (hfst ▸ hnodup) hw
      rwa [chunks_flatten (by decide), hhead] at hchunks
    refine ⟨?_, lbas, ws, ⟨count, list, halloc, hiter⟩, hnodup, hchain, Disk.writeAll_writes d ws, hfst,
      fun x hx => Disk.writeAll_blocks_of_notMem fun w hw heq => hx ?_⟩
    · rw [read, bind_apply, readChain_of_holds hchain (LBA.length_le_addressCount hnodup)]
      rfl
    · exact heq ▸ hfst ▸ mem_map_of_mem hw
end Disk

/-- The first two blocks of a device, as two groups. -/
def twoGroups : BlockList := vec [.single LBA.ZERO, .single LBA.ONE]

/-- Two groups are written into one list block. -/
theorem read_of_write_twoGroups :
    letI := noBytes
    ∃ head a' d', twoGroups.write sevenFree = .ok head (a', d') ∧ read head d' = .ok twoGroups d' := by
  let _ : BlockLayout := noBytes
  have hwrite : ∃ head a' d', twoGroups.write sevenFree = .ok head (a', d') := ⟨_, _, _, rfl⟩
  obtain ⟨head, a', d', hwrite⟩ := hwrite
  exact ⟨head, a', d', hwrite, (read_of_write hwrite).1⟩
end BlockList
end WasabiOS
