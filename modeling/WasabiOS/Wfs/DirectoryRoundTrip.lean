import WasabiOS.Wfs.AllocatorDevice
import WasabiOS.Wfs.Directory

/-!
# Wfs/DirectoryRoundTrip — which directories are read back

`write` allocates one part block for each 4096 entries that do not fit the head, and a part block holds 34
of them; the rest is dropped, and `read` then refuses the directory because it has fewer entries than the
head says.  A directory makes the round trip exactly if it has at most 67 entries or cannot be written at
all (`roundTrips_iff`).
-/

open Machinery Prog
namespace WasabiOS
open BlockAllocator List

/-! ## What is stored -/

/-- The name fits the head of a string in a directory entry. -/
def DirectoryEntry.Short (e : DirectoryEntry) : Prop := (asBytes e.name).length ≤ 100

instance (e : DirectoryEntry) : Decidable e.Short := inferInstanceAs (Decidable (_ ≤ _))

theorem copiedInto_eq {N : ℕ} {bytes : List UInt8} (h : bytes.length ≤ N) :
    ∃ data, copiedInto N bytes = .ok data ∧ data.val.take bytes.length = bytes :=
  ⟨_, dif_pos h, take_left⟩

namespace Directory
variable (dir : Directory)

/-- The number of entries there is room for in the blocks that are allocated. -/
def storedCount : ℕ := DIRECTORY_HEAD_ENTRY_COUNT + (dir.blocksRequired - 1) * DIRECTORY_PART_ENTRY_COUNT

/-- Some file system has the blocks for the directory, and the names of the entries there is room for
fit. -/
def Writable : Prop := dir.blocksRequired.isPowerOfTwo ∧ dir.blocksRequired < u64Size ∧
    ∀ e ∈ dir.entries.take dir.storedCount, e.Short

/-- The entries after those of the head. -/
abbrev chunked : List (List DirectoryEntry) :=
  chunks DIRECTORY_PART_ENTRY_COUNT (dir.entries.drop DIRECTORY_HEAD_ENTRY_COUNT)

theorem blocksRequired_eq : dir.blocksRequired =
    countsRequiredFor BLOCK_SIZE (dir.entries.drop DIRECTORY_HEAD_ENTRY_COUNT).length + 1 := by
  unfold blocksRequired
  rw [length_drop]
  dsimp only
  split_ifs with h
  · rfl
  · rw [Nat.sub_eq_zero_of_le (by omega)]
    rfl

/-- There is something to write into each part block. -/
theorem blocksRequired_le : dir.blocksRequired - 1 ≤ dir.chunked.length := by
  rw [blocksRequired_eq, Nat.add_sub_cancel, length_chunks]
  refine countsRequiredFor_le (by decide) ?_
  refine (le_countsRequiredFor_mul (n := DIRECTORY_PART_ENTRY_COUNT) (by decide)).trans ?_
  exact Nat.mul_le_mul_left _ (by decide)

/-- The blocks are enough for a directory exactly if one part block is. -/
theorem length_le_storedCount : dir.entries.length ≤ dir.storedCount ↔ dir.entries.length ≤ 67 := by
  rw [storedCount, blocksRequired_eq, Nat.add_sub_cancel, length_drop]
  have hsize : BLOCK_SIZE = 4096 := rfl
  have hhead : DIRECTORY_HEAD_ENTRY_COUNT = 33 := rfl
  have hpart : DIRECTORY_PART_ENTRY_COUNT = 34 := rfl
  rw [hhead, hpart, hsize]
  unfold countsRequiredFor
  split_ifs with h
  · omega
  · omega

theorem take_storedCount : dir.entries.take dir.storedCount =
    dir.entries.take DIRECTORY_HEAD_ENTRY_COUNT ++ (dir.chunked.take (dir.blocksRequired - 1)).flatten := by
  rw [take_chunks_flatten dir.blocksRequired_le, storedCount, take_add]
end Directory

section Disk
variable [BlockLayout]

/-! ## An entry -/

/-- What is stored for an entry with a short name. -/
structure Stores (e : DirectoryEntry) (f : FsDirectoryEntry) : Prop where
  id : f.fileId = e.id
  length : f.name.length = (asBytes e.name).length
  data : f.name.data.take (asBytes e.name).length = asBytes e.name

variable {e : DirectoryEntry} {f : FsDirectoryEntry} {s s' : BlockAllocator × Disk Block} {d : Disk Block}

theorem DirectoryEntry.write_of_short (h : e.Short) : ∃ f, e.write s = .ok f s ∧ Stores e f := by
  unfold Short at h
  have hlt : BLOCK_STRING_DATA_LENGTH = 4084 := rfl
  have hmin : (asBytes e.name).take (min (asBytes e.name).length BLOCK_STRING_DATA_LENGTH) = asBytes e.name :=
    take_of_length_le (by omega)
  obtain ⟨data, hdata, htake⟩ := copiedInto_eq h
  refine ⟨⟨⟨(asBytes e.name).length, data, data.property, none⟩, e.id⟩, ?_, rfl, rfl, htake⟩
  unfold DirectoryEntry.write writeStringHead
  simp only [hmin, hdata, lift_ok, pure_bind]
  rw [if_neg (by omega), if_pos (by omega)]
  rfl

theorem DirectoryEntry.short_of_write (h : e.write s = .ok f s') : e.Short := by
  by_contra hlong
  have hlt : BLOCK_STRING_DATA_LENGTH = 4084 := rfl
  unfold Short at hlong
  obtain ⟨head, s1, hhead, -⟩ := bind_ok_iff.1 h
  unfold writeStringHead at hhead
  have hcopy : copiedInto 100 ((asBytes e.name).take (min (asBytes e.name).length BLOCK_STRING_DATA_LENGTH)) =
      .error .panic := by
    refine dif_neg ?_
    rw [length_take]
    omega
  simp only [hcopy] at hhead
  split_ifs at hhead
  all_goals cases hhead

theorem Stores.load (h : Stores e f) (hshort : e.Short) : DirectoryEntry.load f d = .ok e d := by
  unfold DirectoryEntry.Short at hshort
  have hlt : BLOCK_STRING_DATA_LENGTH = 4084 := rfl
  have hmin : min (asBytes e.name).length BLOCK_STRING_DATA_LENGTH = (asBytes e.name).length := by omega
  unfold DirectoryEntry.load readStringHead
  simp only [hmin, h.length, Nat.sub_self, readStringParts_zero, pure_bind, h.data, append_nil, fromUtf8_asBytes,
    decide_eq_true hshort, assert_true, h.id]
  rfl

/-! ## Lists of entries -/

variable {es : List DirectoryEntry} {fs : List FsDirectoryEntry} {N : ℕ} {v w : StaticVec FsDirectoryEntry N}
namespace Directory

theorem writeEntries_of_short (hshort : ∀ e ∈ es, e.Short) (hroom : v.len + es.length ≤ N) :
    ∃ w fs, writeEntries v es s = .ok w s ∧ w.toList = v.toList ++ fs ∧ List.Forall₂ Stores es fs := by
  induction es generalizing v with
  | nil => exact ⟨v, [], rfl, (append_nil _).symm, .nil⟩
  | cons e es ih =>
    obtain ⟨he, hes⟩ := forall_mem_cons.1 hshort
    rw [length_cons] at hroom
    obtain ⟨f, hwrite, hstores⟩ := DirectoryEntry.write_of_short (s := s) he
    obtain ⟨v1, hpush, hv1⟩ := StaticVec.exists_push (v := v) f (by omega)
    have hlen : v1.len = v.len + 1 := by
      rw [StaticVec.len, hv1, length_append]
      rfl
    obtain ⟨w, fs, hrest, hw, hall⟩ := ih (v := v1) hes (by omega)
    refine ⟨w, f :: fs, ?_, ?_, .cons hstores hall⟩
    · rw [writeEntries, bind_apply, hwrite, andThen_ok, hpush, lift_ok, pure_bind, hrest]
    · rw [hw, hv1, append_assoc]
      rfl

theorem short_of_writeEntries (h : writeEntries v es s = .ok w s') : ∀ e ∈ es, e.Short := by
  induction es generalizing v s with
  | nil => exact forall_mem_nil _
  | cons e es ih =>
    obtain ⟨f, s1, hwrite, h⟩ := bind_ok_iff.1 h
    obtain ⟨v1, s2, -, h⟩ := bind_ok_iff.1 h
    exact forall_mem_cons.2 ⟨DirectoryEntry.short_of_write hwrite, ih h⟩

theorem extendEntries_of_stores (hall : List.Forall₂ Stores es fs) (hshort : ∀ e ∈ es, e.Short)
    (read : List DirectoryEntry) : extendEntries read fs d = .ok (read ++ es) d := by
  induction hall generalizing read with
  | nil =>
    rw [append_nil]
    rfl
  | cons hstores hall ih =>
    obtain ⟨he, hes⟩ := forall_mem_cons.1 hshort
    rw [extendEntries, bind_apply, hstores.load he, andThen_ok, ih hes, append_assoc]
    rfl

/-! ## The chain of parts -/

variable {ls : List LBA} {cs : List (List DirectoryEntry)} {a a' : BlockAllocator} {d' : Disk Block}

/-- **A chain of parts**: the blocks that are written, and what is read from a device that has them. -/
theorem writeParts_of_short (hshort : ∀ c ∈ cs.take ls.length, ∀ e ∈ c, e.Short)
    (hsize : ∀ c ∈ cs, c.length ≤ DIRECTORY_PART_ENTRY_COUNT) (hlen : ls.length ≤ cs.length) :
    ∃ ws, writeParts ls cs (a, d) = .ok () (a, d.writeAll ws) ∧ ws.map Prod.fst = ls ∧
      ∀ {dev : Disk Block} {fuel expected : ℕ} {read : List DirectoryEntry},
        (∀ w ∈ ws, dev.blocks w.1 = w.2) → ls.length ≤ fuel →
          read.length + (cs.take ls.length).flatten.length ≤ expected →
            readParts expected fuel read (ls.head?.map DevicePointer.mk) dev =
              .ok (read ++ (cs.take ls.length).flatten) dev := by
  induction ls generalizing cs d with
  | nil =>
    refine ⟨[], by cases cs <;> rfl, rfl, fun {dev fuel expected read} _ _ _ => ?_⟩
    rw [length_nil, take_zero, flatten_nil, append_nil]
    cases fuel <;> rfl
  | cons l ls ih =>
    cases cs with
    | nil => exact absurd hlen (Nat.not_succ_le_zero _)
    | cons c cs =>
      obtain ⟨hc, hcs⟩ := forall_mem_cons.1 hshort
      obtain ⟨hcsize, hcssize⟩ := forall_mem_cons.1 hsize
      obtain ⟨v, fs, hwrite, hv, hall⟩ := writeEntries_of_short (s := (a, d))
        (v := (StaticVec.new : StaticVec _ DIRECTORY_PART_ENTRY_COUNT)) hc (by
          show 0 + c.length ≤ _
          omega)
      rw [StaticVec.toList_new, nil_append] at hv
      let block : Block := .directoryPart ⟨v, ls.head?.map DevicePointer.mk⟩
      obtain ⟨ws, hparts, hfst, hread⟩ := ih (d := d.write l block) hcs hcssize (Nat.le_of_succ_le_succ hlen)
      refine ⟨(l, block) :: ws, ?_, by rw [map_cons, hfst], fun {dev fuel expected read} hdev hfuel htotal => ?_⟩
      · rw [writeParts, bind_apply, hwrite, andThen_ok, bind_apply]
        exact hparts
      · obtain ⟨fuel, rfl⟩ : ∃ n, fuel = n + 1 := ⟨fuel - 1, by rw [length_cons] at hfuel; omega⟩
        obtain ⟨hblock, hdev⟩ := forall_mem_cons.1 hdev
        rw [length_cons, take_succ_cons, flatten_cons] at htotal ⊢
        rw [length_append] at htotal
        have hptr : readPointer (k := .directoryPart) ⟨l⟩ dev = .ok ⟨v, ls.head?.map DevicePointer.mk⟩ dev :=
          readPointer_disk (congrArg _ hblock)
        have hvlen : v.len = c.length := by rw [StaticVec.len, hv, hall.length_eq]
        rw [head?_cons, Option.map_some, readParts, bind_apply, mapErr_ok hptr, andThen_ok]
        simp only [hvlen]
        rw [if_neg (by omega), bind_apply, hv, extendEntries_of_stores hall hc, andThen_ok,
          hread hdev (Nat.le_of_succ_le_succ hfuel) (by rw [length_append]; omega), append_assoc]

theorem short_of_writeParts {u : Unit} (h : writeParts ls cs s = .ok u s') :
    ∀ c ∈ cs.take ls.length, ∀ e ∈ c, e.Short := by
  induction ls generalizing cs s with
  | nil => exact forall_mem_nil _
  | cons l ls ih =>
    cases cs with
    | nil => exact forall_mem_nil _
    | cons c cs =>
      obtain ⟨v, s1, hwrite, h⟩ := bind_ok_iff.1 h
      obtain ⟨_, s2, -, h⟩ := bind_ok_iff.1 h
      exact forall_mem_cons.2 ⟨short_of_writeEntries hwrite, ih h⟩

/-! ## The directory -/

variable (dir : Directory)

/-- **The round trip**: if `write` returns a pointer, `read` returns the directory, from every device that
has the blocks that were written. -/
def RoundTrips (a : BlockAllocator) (d : Disk Block) : Prop := ∀ p a' d', dir.write (a, d) = .ok p (a', d') →
    ∀ dev : Disk Block, (∀ w ∈ d'.writes.drop d.writes.length, dev.blocks w.1 = d'.blocks w.1) →
      read p dev = .ok dir dev

variable {dir} {list : BlockGroupList} {l : LBA}

/-- **Writing a directory**: the blocks that are written, and what is read from a device that has them. -/
theorem write_of_short (halloc : allocate dir.blocksRequired a = .ok list a')
    (hiter : list.blockIter = .ok (l :: ls)) (hnodup : (l :: ls).Nodup) (hlen : ls.length = dir.blocksRequired - 1)
    (hshort : ∀ e ∈ dir.entries.take dir.storedCount, e.Short) :
    ∃ ws, dir.write (a, d) = .ok ⟨l⟩ (a', d.writeAll ws) ∧ ws.map Prod.fst = l :: ls ∧
      ∀ dev : Disk Block, (∀ w ∈ ws, dev.blocks w.1 = w.2) →
        (dir.entries.length ≤ dir.storedCount → read ⟨l⟩ dev = .ok dir dev) ∧
        (¬ dir.entries.length ≤ dir.storedCount → ∃ e, read ⟨l⟩ dev = .err e dev) := by
  rw [take_storedCount] at hshort
  obtain ⟨hhead, hparts⟩ := forall_mem_append.1 hshort
  have hheadLen : (dir.entries.take DIRECTORY_HEAD_ENTRY_COUNT).length ≤ DIRECTORY_HEAD_ENTRY_COUNT :=
    length_take_le _ _
  obtain ⟨v, fs, hwrite, hv, hall⟩ := writeEntries_of_short (s := (a', d))
    (v := (StaticVec.new : StaticVec _ DIRECTORY_HEAD_ENTRY_COUNT)) hhead (by
      show 0 + _ ≤ _
      omega)
  rw [StaticVec.toList_new, nil_append] at hv
  let block : Block := .directoryHead ⟨dir.parentId, dir.entries.length, v, ls.head?.map DevicePointer.mk⟩
  have hchunks : ∀ c ∈ dir.chunked.take ls.length, ∀ e ∈ c, e.Short :=
    fun c hc e he => hparts e (mem_flatten.2 ⟨c, hlen ▸ hc, he⟩)
  have hfit : ls.length ≤ dir.chunked.length := hlen ▸ dir.blocksRequired_le
  obtain ⟨ws, hwritten, hfst, hread⟩ := writeParts_of_short (a := a') (d := d.write l block) hchunks
    (fun c => length_le_of_mem_chunks) hfit
  refine ⟨(l, block) :: ws, ?_, by rw [map_cons, hfst], fun dev hdev => ?_⟩
  · rw [write, bind_apply, onAllocator, zoom_ok halloc, andThen_ok, hiter, lift_ok, pure_bind]
    exact bind_ok_iff.2 ⟨v, _, hwrite, bind_ok_iff.2 ⟨(), (a', d.write l block), rfl,
      bind_ok_iff.2 ⟨(), _, hwritten, rfl⟩⟩⟩
  · obtain ⟨hblock, hdev⟩ := forall_mem_cons.1 hdev
    have hptr : readPointer (k := .directoryHead) ⟨l⟩ dev =
        .ok ⟨dir.parentId, dir.entries.length, v, ls.head?.map DevicePointer.mk⟩ dev :=
      readPointer_disk (congrArg _ hblock)
    have hvlen : v.len = (dir.entries.take DIRECTORY_HEAD_ENTRY_COUNT).length := by
      rw [StaticVec.len, hv, hall.length_eq]
    have hfuel : ls.length ≤ LBA.addressCount := LBA.length_le_addressCount (nodup_cons.1 hnodup).2
    have hstored : (dir.entries.take DIRECTORY_HEAD_ENTRY_COUNT).length +
        (dir.chunked.take ls.length).flatten.length = min dir.storedCount dir.entries.length := by
      rw [← length_append, hlen, ← take_storedCount, length_take]
    have hvle : ¬ dir.entries.length < v.len := by
      rw [hvlen, length_take]
      omega
    have hentries : readParts dir.entries.length LBA.addressCount _ _ dev = _ :=
      hread hdev hfuel (hstored.trans_le (min_le_right _ _))
    rw [hlen, ← take_storedCount] at hentries
    rw [read, bind_apply, mapErr_ok hptr, andThen_ok]
    simp only [if_neg hvle]
    rw [bind_apply, hv, extendEntries_of_stores hall hhead, andThen_ok, nil_append, bind_apply, hentries, andThen_ok]
    constructor
    · intro hle
      rw [take_of_length_le hle, if_neg (not_not.2 rfl)]
      rfl
    · intro hlt
      rw [if_pos (by rw [length_take]; omega)]
      exact ⟨_, rfl⟩

/-- Without room for all entries the directory is not read back. -/
theorem not_roundTrips (halloc : allocate dir.blocksRequired a = .ok list a')
    (hiter : list.blockIter = .ok (l :: ls)) (hnodup : (l :: ls).Nodup) (hlen : ls.length = dir.blocksRequired - 1)
    (hshort : ∀ e ∈ dir.entries.take dir.storedCount, e.Short) (hlt : ¬ dir.entries.length ≤ dir.storedCount) :
    ¬ dir.RoundTrips a d := by
  intro hround
  obtain ⟨ws, hwrite, hfst, hread⟩ := write_of_short (d := d) halloc hiter hnodup hlen hshort
  have hok := hround _ _ _ hwrite _ fun _ _ => rfl
  obtain ⟨e, herr⟩ := (hread _ fun w hw => Disk.writeAll_blocks_of_mem (hfst ▸ hnodup) hw).2 hlt
  rw [herr] at hok
  cases hok

/-- What a write that returns says about the directory and about the blocks. -/
theorem writable_of_write {p : DevicePointer .directoryHead} (h : dir.write (a, d) = .ok p (a', d')) :
    dir.Writable ∧ ∃ list a₁ ls, allocate dir.blocksRequired a = .ok list a₁ ∧
      list.blockIter = .ok (p.lba :: ls) ∧ (p.lba :: ls).Nodup ∧ ls.length = dir.blocksRequired - 1 := by
  obtain ⟨list, s1, hzoom, h⟩ := bind_ok_iff.1 h
  obtain ⟨a₁, halloc, rfl⟩ := zoom_eq_ok.1 hzoom
  have hpos : 1 ≤ dir.blocksRequired := Nat.le_add_left 1 _
  obtain ⟨-, r, -, hcount⟩ := allocate_single hpos halloc
  obtain ⟨lbas, s2, hlift, h⟩ := bind_ok_iff.1 h
  obtain ⟨hiter, rfl⟩ := lift_eq_ok.1 hlift
  obtain ⟨hpow, hnodup, hlbas⟩ := blocks_of_allocate hpos halloc hiter
  cases lbas with
  | nil => cases h
  | cons l ls =>
    obtain ⟨v, s3, hwrite, h⟩ := bind_ok_iff.1 h
    obtain ⟨_, s4, -, h⟩ := bind_ok_iff.1 h
    obtain ⟨_, s5, hparts, h⟩ := bind_ok_iff.1 h
    cases h
    have hls : ls.length = dir.blocksRequired - 1 := by rw [← hlbas, length_cons, Nat.add_sub_cancel]
    refine ⟨⟨hpow, hcount ▸ r.count_lt, ?_⟩, _, a₁, ls, halloc, hiter, hnodup, hls⟩
    rw [take_storedCount, ← hls]
    refine forall_mem_append.2 ⟨short_of_writeEntries hwrite, fun e he => ?_⟩
    obtain ⟨c, hc, he⟩ := mem_flatten.1 he
    exact short_of_writeParts hparts c hc e he

omit [BlockLayout] in
/-- A file system with exactly the blocks for the directory. -/
theorem exists_allocate (h : dir.Writable) : ∃ a list a' l ls,
    allocate dir.blocksRequired a = .ok list a' ∧ list.blockIter = .ok (l :: ls) ∧
      (l :: ls).Nodup ∧ ls.length = dir.blocksRequired - 1 := by
  obtain ⟨hpow, hlt, -⟩ := h
  have hpos : 1 ≤ dir.blocksRequired := Nat.le_add_left 1 _
  obtain ⟨a, list, a', ls, -, -, halloc, hiter⟩ := BlockAllocator.exists_allocate hpow hlt
  obtain ⟨-, hnodup, hlbas⟩ := BlockAllocator.blocks_of_allocate hpos halloc hiter
  cases ls with
  | nil =>
    rw [length_nil] at hlbas
    omega
  | cons l ls =>
    refine ⟨a, list, a', l, ls, halloc, hiter, hnodup, ?_⟩
    rw [← hlbas, length_cons, Nat.add_sub_cancel]

/-- **A directory makes the round trip exactly if it has at most 67 entries or cannot be written.** -/
theorem roundTrips_iff (dir : Directory) : (∀ a d, dir.RoundTrips a d) ↔ (dir.Writable → dir.entries.length ≤ 67) := by
  rw [← length_le_storedCount]
  constructor
  · intro hround hwritable
    obtain ⟨a, list, a', l, ls, halloc, hiter, hnodup, hlen⟩ := exists_allocate hwritable
    by_contra hlt
    exact not_roundTrips (d := ⟨0, fun _ => .data [], []⟩) halloc hiter hnodup hlen hwritable.2.2 hlt (hround a _)
  · intro hfits a d p a' d' hwrite dev hdev
    obtain ⟨hwritable, list, a₁, ls, halloc, hiter, hnodup, hlen⟩ := writable_of_write hwrite
    obtain ⟨ws, hws, hfst, hread⟩ := write_of_short (d := d) halloc hiter hnodup hlen hwritable.2.2
    obtain rfl : d.writeAll ws = d' := by
      have heq := hws.symm.trans hwrite
      cases heq
      rfl
    refine (hread dev fun w hw => ?_).1 (hfits hwritable)
    rw [Disk.writeAll_writes, drop_left] at hdev
    rw [hdev w hw, Disk.writeAll_blocks_of_mem (hfst ▸ hnodup) hw]
end Directory
end Disk

/-- 68 entries without a name. -/
def manyEntries : Directory := ⟨none, List.replicate 68 ⟨"", FileId.ROOT⟩⟩

/-- All 68 entries are counted, and 67 are written. -/
theorem not_roundTrips_manyEntries :
    letI := noBytes
    ¬ manyEntries.RoundTrips sevenFree.1 sevenFree.2 := by
  let _ : BlockLayout := noBytes
  have halloc : allocate manyEntries.blocksRequired sevenFree.1 =
      .ok ⟨[⟨⟨1, by decide⟩, 2, by decide, by decide⟩]⟩ _ := rfl
  refine Directory.not_roundTrips halloc rfl ?_ rfl (fun e he => ?_) (by decide)
  · exact nodup_of_map_get (r := ⟨⟨1, by decide⟩, 2, by decide, by decide⟩) rfl
  · obtain rfl := eq_of_mem_replicate (mem_of_mem_take he)
    exact Nat.zero_le 100
end WasabiOS
