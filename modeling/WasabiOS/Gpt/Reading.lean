import WasabiOS.Gpt.Gpt

/-!
# Gpt/Reading — what is read from which device

`read` is described by what the block of the header and the blocks of the array hold (`Accepts`,
`Rejects`, `Panics`): it uses the header, reports it as invalid, panics, or gives up.  Only a header that is
reported leads to the copy in the last block.
-/

open Machinery Prog
namespace WasabiOS
namespace Gpt
open Nat

/-! ## The contents of a device -/

/-- The header passes its checks. -/
structure Header.Verified (lba : ℕ) (h : Header) : Prop where
  signature : h.signature = SIGNATURE
  crc : h.headerCrc32 = h.calculateCrc32
  myLba : h.myLba = lba
  entrySize : h.sizeOfPartitionEntry % 128 = 0

theorem Header.verify_eq_ok {lba : ℕ} {h : Header} {u : Unit} : h.verify lba = .ok u ↔ h.Verified lba := by
  unfold Header.verify
  split_ifs with hsig hcrc hlba hsize
  · exact iff_of_false nofun fun hv => hsig hv.signature
  · exact iff_of_false nofun fun hv => hcrc hv.crc
  · exact iff_of_false nofun fun hv => hlba hv.myLba
  · exact iff_of_false nofun fun hv => hsize hv.entrySize
  · exact iff_of_true rfl ⟨not_not.1 hsig, not_not.1 hcrc, not_not.1 hlba, not_not.1 hsize⟩

instance (lba : ℕ) (h : Header) : Decidable (h.Verified lba) :=
  decidable_of_iff (h.verify lba = .ok ()) Header.verify_eq_ok

/-- The length of the array in bytes. -/
def Header.arrayLen (h : Header) : ℕ := h.sizeOfPartitionEntry * h.numberOfPartitions

namespace RawDevice
variable (dev : RawDevice)

/-- The header in a block. -/
def headerAt (lba : ℕ) : Header := Header.ofBytes (dev.block lba)

/-- The number of blocks of the array. -/
def blockCount (h : Header) : ℕ := countsRequiredFor dev.blockSize h.arrayLen

/-- The blocks of the array. -/
def arrayBytes (h : Header) : List UInt8 := dev.bytesFrom h.partitionEntryLba (dev.blockCount h)

/-- The entries of the array. -/
def entries (h : Header) : List PartitionEntry := (List.range h.numberOfPartitions).map fun i =>
    PartitionEntry.ofBytes (field (i * h.sizeOfPartitionEntry) PartitionEntry.SIZE (dev.arrayBytes h))

/-- The checksum of the array. -/
def arrayCrc (h : Header) : ℕ := crc32 ((dev.arrayBytes h).take h.arrayLen)

theorem length_bytesFrom (start count : ℕ) : (dev.bytesFrom start count).length = count * dev.blockSize := by
  rw [bytesFrom, List.length_flatMap]
  simp only [dev.length_block, List.map_const', List.length_range, List.sum_replicate, nsmul_eq_mul, cast_id]

theorem arrayLen_le {h : Header} (hsize : 0 < dev.blockSize) : h.arrayLen ≤ (dev.arrayBytes h).length := by
  rw [arrayBytes, length_bytesFrom]
  exact le_countsRequiredFor_mul hsize
end RawDevice

/-- Entries of the array lie in its bytes. -/
theorem decodeEntries_eq {data : List UInt8} {entrySize : ℕ} : ∀ {count offset : ℕ},
    (∀ i < count, offset + i * entrySize + PartitionEntry.SIZE ≤ data.length) →
      decodeEntries data entrySize count offset = .ok ((List.range count).map fun i =>
        PartitionEntry.ofBytes (field (offset + i * entrySize) PartitionEntry.SIZE data))
  | 0, _, _ => rfl
  | count + 1, offset, h => by
    have hfirst := h 0 (succ_pos _)
    rw [zero_mul, add_zero] at hfirst
    have hpos : 0 < PartitionEntry.SIZE := by decide
    have hbound : ∀ i < count, offset + entrySize + i * entrySize + PartitionEntry.SIZE ≤ data.length := by
      intro i hi
      have hnext := h (i + 1) (succ_lt_succ hi)
      rw [add_mul, one_mul] at hnext
      omega
    have hrest := decodeEntries_eq hbound
    rw [decodeEntries, if_pos ⟨by omega, hfirst⟩, hrest, List.range_succ_eq_map, List.map_cons, List.map_map,
      zero_mul, add_zero]
    refine congrArg (fun l => Except.ok (_ :: l)) (List.map_congr_left fun i _ => ?_)
    rw [Function.comp_apply, succ_mul, add_assoc, add_comm entrySize]

/-! ## Reading a header and its array -/

variable {dev : RawDevice} {h : Header} {lba : LBA} {primaryErr : Option InvalidHeader}

/-- The array can be read: it is on the device, and there is memory for it and for the entries. -/
@[mk_iff] structure RawDevice.ArrayReadable (dev : RawDevice) (h : Header) : Prop where
  memory : dev.hasBuffer (dev.blockCount h * dev.blockSize) = true
  inRange : h.partitionEntryLba + dev.blockCount h ≤ dev.size
  entryMemory : dev.hasBuffer (h.numberOfPartitions * PartitionEntry.SIZE) = true

instance (dev : RawDevice) (h : Header) : Decidable (dev.ArrayReadable h) :=
  decidable_of_iff' _ (RawDevice.arrayReadable_iff dev h)

theorem blockCount_pos (hlen : 0 < h.arrayLen) (hsize : 0 < dev.blockSize) : 0 < dev.blockCount h := by
  have hle : h.arrayLen ≤ dev.blockCount h * dev.blockSize := le_countsRequiredFor_mul hsize
  refine pos_of_ne_zero fun hzero => ?_
  rw [hzero, zero_mul] at hle
  omega

section EntrySize
variable (hpos : 0 < h.sizeOfPartitionEntry) (hmod : h.sizeOfPartitionEntry % 128 = 0) (hsize : 0 < dev.blockSize)
include hpos hmod hsize

/-- Each entry ends in the array. -/
theorem entry_le {i : ℕ} (hi : i < h.numberOfPartitions) :
    i * h.sizeOfPartitionEntry + PartitionEntry.SIZE ≤ (dev.arrayBytes h).length := by
  have hlarge : PartitionEntry.SIZE ≤ h.sizeOfPartitionEntry := le_of_dvd hpos (dvd_of_mod_eq_zero hmod)
  calc i * h.sizeOfPartitionEntry + PartitionEntry.SIZE ≤ (i + 1) * h.sizeOfPartitionEntry := by
        rw [add_mul, one_mul]
        exact Nat.add_le_add_left hlarge _
    _ ≤ h.sizeOfPartitionEntry * h.numberOfPartitions := by
        rw [mul_comm]
        exact mul_le_mul_left _ hi
    _ ≤ (dev.arrayBytes h).length := dev.arrayLen_le hsize

theorem decodeEntries_arrayBytes :
    decodeEntries (dev.arrayBytes h) h.sizeOfPartitionEntry h.numberOfPartitions 0 = .ok (dev.entries h) := by
  have hbound : ∀ i < h.numberOfPartitions,
      0 + i * h.sizeOfPartitionEntry + PartitionEntry.SIZE ≤ (dev.arrayBytes h).length := by
    intro i hi
    rw [zero_add]
    exact entry_le hpos hmod hsize hi
  rw [decodeEntries_eq hbound]
  simp only [zero_add]
  rfl
end EntrySize

theorem allocBuffer_apply {len : ℕ} :
    allocBuffer len dev = if dev.hasBuffer len = true then .ok () dev else .err .allocation dev := by
  rw [allocBuffer, bind_apply, get_apply, andThen_ok]
  split_ifs
  · rfl
  · rfl

theorem readBlock_apply :
    readBlock lba dev = if lba.get < dev.size then .ok (dev.block lba.get) dev else .err .readBlockDevice dev := by
  rw [readBlock, bind_apply, get_apply, andThen_ok]
  split_ifs
  · rfl
  · rfl

theorem readBlocksContig_apply {start : LBA} {count : ℕ} : readBlocksContig start count dev =
      if start.get + count ≤ dev.size then .ok (dev.bytesFrom start.get count) dev
      else .err .readBlockDevice dev := by
  rw [readBlocksContig, bind_apply, get_apply, andThen_ok]
  split_ifs
  · rfl
  · rfl

section Entries
variable {start : LBA} (hstart : start.get = h.partitionEntryLba) (hn : 0 < h.numberOfPartitions)
  (hmod : h.sizeOfPartitionEntry % 128 = 0) (hsize : 0 < dev.blockSize)
include hsize

/-- Without blocks there is nothing to read. -/
theorem readEntries_zero (hzero : h.sizeOfPartitionEntry = 0) : readEntries h start dev = .fault .panic := by
  have hcount : countsRequiredFor dev.blockSize (h.sizeOfPartitionEntry * h.numberOfPartitions) = 0 := by
    rw [hzero, zero_mul]
    exact le_zero.1 (countsRequiredFor_le hsize (zero_le _))
  rw [readEntries, bind_apply, get_apply, andThen_ok]
  simp only [hcount, zero_mul]
  rfl

include hstart hn hmod

/-- **Reading the entries.** -/
theorem readEntries_apply (hpos : 0 < h.sizeOfPartitionEntry) : readEntries h start dev =
      if dev.hasBuffer (dev.blockCount h * dev.blockSize) = true then
        if h.partitionEntryLba + dev.blockCount h ≤ dev.size then
          if dev.hasBuffer (h.numberOfPartitions * PartitionEntry.SIZE) = true then
            if dev.arrayCrc h = h.partitionEntryArrayCrc32 then .ok (dev.entries h) dev
            else .err (.invalidHeaders (.invalidEntryArrayCrc h.partitionEntryArrayCrc32 (dev.arrayCrc h))
              (.invalidEntryArrayCrc h.partitionEntryArrayCrc32 (dev.arrayCrc h))) dev
          else .err .allocation dev
        else .err .readBlockDevice dev
      else .err .allocation dev := by
  have hcount : 0 < dev.blockCount h := blockCount_pos (mul_pos hpos hn) hsize
  have hcount' : dev.blockCount h ≠ 0 := hcount.ne'
  have hdecode : decodeEntries (dev.arrayBytes h) _ _ 0 = _ := decodeEntries_arrayBytes hpos hmod hsize
  rw [readEntries, bind_apply, get_apply, andThen_ok]
  show (allocBuffer (dev.blockCount h * dev.blockSize) >>= fun _ => assert (dev.blockCount h ≠ 0) >>= fun _ =>
    readBlocksContig start (dev.blockCount h) >>= fun data => _) dev = _
  rw [bind_apply, allocBuffer_apply]
  by_cases hmemory : dev.hasBuffer (dev.blockCount h * dev.blockSize) = true
  · rw [if_pos hmemory, if_pos hmemory, andThen_ok, decide_eq_true hcount', assert_true, pure_bind,
      bind_apply, readBlocksContig_apply, hstart]
    by_cases hrange : h.partitionEntryLba + dev.blockCount h ≤ dev.size
    · rw [if_pos hrange, if_pos hrange, andThen_ok, bind_apply, allocBuffer_apply]
      by_cases hentryMemory : dev.hasBuffer (h.numberOfPartitions * PartitionEntry.SIZE) = true
      · rw [if_pos hentryMemory, if_pos hentryMemory, andThen_ok]
        show (lift (decodeEntries (dev.arrayBytes h) _ _ 0) >>= fun partitions =>
          if dev.arrayCrc h ≠ h.partitionEntryArrayCrc32 then _ else _) dev = _
        rw [hdecode, lift_ok, pure_bind]
        by_cases hcrc : dev.arrayCrc h = h.partitionEntryArrayCrc32
        · rw [if_neg (not_not.2 hcrc), if_pos hcrc]
          rfl
        · rw [if_pos hcrc, if_neg hcrc]
          rfl
      · rw [if_neg hentryMemory, if_neg hentryMemory]
        rfl
    · rw [if_neg hrange, if_neg hrange]
      rfl
  · rw [if_neg hmemory, if_neg hmemory]
    rfl
end Entries

/-! ### The array -/

theorem readArray_of_overflow (hlen : 2 ^ 32 ≤ h.arrayLen) : readArray h primaryErr dev = .fault .panic := by
  have hassert : decide (h.sizeOfPartitionEntry * h.numberOfPartitions < 2 ^ 32) = false :=
    decide_eq_false (not_lt.2 hlen)
  rw [readArray, hassert, assert_false]
  rfl

section Short
variable (hlen : h.arrayLen < 2 ^ 32)
include hlen

theorem readArray_of_invalidLba (hlba : u64Size - 1 ≤ h.partitionEntryLba) :
    readArray h primaryErr dev = .err (.invalidHeaders (primaryErr.getD (.invalidLBA h.partitionEntryLba))
      (.invalidLBA h.partitionEntryLba)) dev := by
  have hassert : decide (h.sizeOfPartitionEntry * h.numberOfPartitions < 2 ^ 32) = true := decide_eq_true hlen
  have hnew : LBA.new h.partitionEntryLba = none := dif_neg (not_lt.2 hlba)
  rw [readArray, hassert, assert_true, pure_bind, hnew]
  rfl

theorem readArray_of_start (hlba : h.partitionEntryLba < u64Size - 1) :
    readArray h primaryErr dev = readEntries h ⟨h.partitionEntryLba, hlba⟩ dev := by
  have hassert : decide (h.sizeOfPartitionEntry * h.numberOfPartitions < 2 ^ 32) = true := decide_eq_true hlen
  have hnew : LBA.new h.partitionEntryLba = some ⟨h.partitionEntryLba, hlba⟩ := dif_pos hlba
  rw [readArray, hassert, assert_true, pure_bind, hnew]
end Short

/-! ### What becomes of a header -/

namespace RawDevice
variable (dev) (n : ℕ)

/-- The block of the header can be read. -/
def Loads : Prop := dev.hasBuffer dev.blockSize = true ∧ n < dev.size

/-- The header in a block is used. -/
@[mk_iff] structure Accepts : Prop where
  loads : dev.Loads n
  verified : (dev.headerAt n).Verified n
  array : (dev.headerAt n).numberOfPartitions = 0 ∧ (dev.headerAt n).partitionEntryArrayCrc32 = 0 ∨
    0 < (dev.headerAt n).numberOfPartitions ∧ (dev.headerAt n).arrayLen < 2 ^ 32 ∧
      (dev.headerAt n).partitionEntryLba < u64Size - 1 ∧ 0 < (dev.headerAt n).sizeOfPartitionEntry ∧
      dev.ArrayReadable (dev.headerAt n) ∧
      dev.arrayCrc (dev.headerAt n) = (dev.headerAt n).partitionEntryArrayCrc32

/-- The header in a block is reported as invalid. -/
@[mk_iff] structure Rejects : Prop where
  loads : dev.Loads n
  invalid : ¬ (dev.headerAt n).Verified n ∨ (dev.headerAt n).Verified n ∧ ((dev.headerAt n).numberOfPartitions = 0 ∧
        (dev.headerAt n).partitionEntryArrayCrc32 ≠ 0 ∨
      0 < (dev.headerAt n).numberOfPartitions ∧ (dev.headerAt n).arrayLen < 2 ^ 32 ∧
        (u64Size - 1 ≤ (dev.headerAt n).partitionEntryLba ∨
          (dev.headerAt n).partitionEntryLba < u64Size - 1 ∧ 0 < (dev.headerAt n).sizeOfPartitionEntry ∧
            dev.ArrayReadable (dev.headerAt n) ∧
            dev.arrayCrc (dev.headerAt n) ≠ (dev.headerAt n).partitionEntryArrayCrc32))

/-- The header in a block leads to a panic: the length of the array is no `u32`, or it has no blocks. -/
@[mk_iff] structure Panics : Prop where
  loads : dev.Loads n
  verified : (dev.headerAt n).Verified n
  some : 0 < (dev.headerAt n).numberOfPartitions
  length : 2 ^ 32 ≤ (dev.headerAt n).arrayLen ∨
    (dev.headerAt n).sizeOfPartitionEntry = 0 ∧ (dev.headerAt n).partitionEntryLba < u64Size - 1

instance : Decidable (dev.Loads n) := inferInstanceAs (Decidable (_ ∧ _))

instance : Decidable (dev.Accepts n) := decidable_of_iff' _ (accepts_iff dev n)

instance : Decidable (dev.Rejects n) := decidable_of_iff' _ (rejects_iff dev n)

instance : Decidable (dev.Panics n) := decidable_of_iff' _ (panics_iff dev n)
end RawDevice

section Header
variable (hsize : Header.SIZE ≤ dev.blockSize)
include hsize
section
variable (hloads : dev.Loads lba.get)
include hloads

/-- Once the block is there its header is used. -/
theorem read_of_loads : read lba primaryErr dev = useHeader (dev.headerAt lba.get) lba primaryErr dev := by
  have hcast : castBlock Header.SIZE Header.ofBytes (dev.block lba.get) = .ok (dev.headerAt lba.get) :=
    if_pos (by rw [dev.length_block]; exact hsize)
  rw [read, bind_apply, get_apply, andThen_ok, bind_apply, allocBuffer_apply,
    if_pos hloads.1, andThen_ok, bind_apply, readBlock_apply, if_pos hloads.2, andThen_ok,
    hcast, lift_ok, pure_bind]

section
variable (hverified : (dev.headerAt lba.get).Verified lba.get)
include hverified

/-- A header with entries leads to its array. -/
theorem read_array (hn : 0 < (dev.headerAt lba.get).numberOfPartitions) :
    read lba primaryErr dev = (readArray (dev.headerAt lba.get) primaryErr dev).andThen
      fun partitions => pure (dev.headerAt lba.get, partitions) := by
  rw [read_of_loads hsize hloads, useHeader, (Header.verify_eq_ok (u := ())).2 hverified]
  dsimp only
  rw [if_neg hn.ne']
  rfl

/-- A header without entries is used when it has no checksum for them. -/
theorem read_empty (hn : (dev.headerAt lba.get).numberOfPartitions = 0)
    (hcrc : (dev.headerAt lba.get).partitionEntryArrayCrc32 = 0) :
    read lba primaryErr dev = .ok (dev.headerAt lba.get, []) dev := by
  rw [read_of_loads hsize hloads, useHeader, (Header.verify_eq_ok (u := ())).2 hverified]
  dsimp only
  rw [if_pos hn, if_neg (not_not.2 hcrc)]
  rfl

/-- The array of a header that is neither too long nor out of reach. -/
theorem read_entries
    (hn : 0 < (dev.headerAt lba.get).numberOfPartitions) (hlen : (dev.headerAt lba.get).arrayLen < 2 ^ 32)
    (hlba : (dev.headerAt lba.get).partitionEntryLba < u64Size - 1) :
    read lba primaryErr dev = (readEntries (dev.headerAt lba.get) ⟨_, hlba⟩ dev).andThen
      fun partitions => pure (dev.headerAt lba.get, partitions) := by
  rw [read_array hsize hloads hverified hn, readArray_of_start hlen hlba]
end
end

theorem blockSize_pos : 0 < dev.blockSize := lt_of_lt_of_le (by decide) hsize

theorem read_of_panics (hpanics : dev.Panics lba.get) : read lba primaryErr dev = .fault .panic := by
  obtain ⟨hloads, hverified, hn, hlong | ⟨hzero, hlba⟩⟩ := hpanics
  · rw [read_array hsize hloads hverified hn, readArray_of_overflow hlong, Outcome.andThen_fault]
  · have hlen : (dev.headerAt lba.get).arrayLen < 2 ^ 32 := by
      rw [Header.arrayLen, hzero, zero_mul]
      decide
    rw [read_entries hsize hloads hverified hn hlen hlba, readEntries_zero (blockSize_pos hsize) hzero,
      Outcome.andThen_fault]

theorem read_of_accepts (haccepts : dev.Accepts lba.get) :
    read lba primaryErr dev = .ok (dev.headerAt lba.get, dev.entries (dev.headerAt lba.get)) dev := by
  obtain ⟨hloads, hverified, ⟨hn, hcrc⟩ | ⟨hn, hlen, hlba, hpos, hreadable, hcrc⟩⟩ := haccepts
  · have hnone : dev.entries (dev.headerAt lba.get) = [] := by
      rw [RawDevice.entries, hn]
      rfl
    rw [read_empty hsize hloads hverified hn hcrc, hnone]
  · rw [read_entries hsize hloads hverified hn hlen hlba,
      readEntries_apply rfl hn hverified.entrySize (blockSize_pos hsize) hpos, if_pos hreadable.memory,
      if_pos hreadable.inRange, if_pos hreadable.entryMemory, if_pos hcrc]
    rfl

theorem read_of_rejects (hrejects : dev.Rejects lba.get) :
    ∃ e e', read lba primaryErr dev = .err (.invalidHeaders e e') dev := by
  obtain ⟨hloads, hinvalid⟩ := hrejects
  by_cases hverified : (dev.headerAt lba.get).Verified lba.get
  · obtain ⟨-, ⟨hn, hcrc⟩ | ⟨hn, hlen, hlba | ⟨hlba, hpos, hreadable, hcrc⟩⟩⟩ :=
      hinvalid.resolve_left (not_not.2 hverified)
    · rw [read_of_loads hsize hloads, useHeader, (Header.verify_eq_ok (u := ())).2 hverified]
      dsimp only
      rw [if_pos hn, if_pos hcrc]
      exact ⟨_, _, rfl⟩
    · rw [read_array hsize hloads hverified hn, readArray_of_invalidLba hlen hlba]
      exact ⟨_, _, rfl⟩
    · rw [read_entries hsize hloads hverified hn hlen hlba,
        readEntries_apply rfl hn hverified.entrySize (blockSize_pos hsize) hpos, if_pos hreadable.memory,
        if_pos hreadable.inRange, if_pos hreadable.entryMemory, if_neg hcrc]
      exact ⟨_, _, rfl⟩
  · obtain ⟨e, he⟩ : ∃ e, (dev.headerAt lba.get).verify lba.get = .error e := by
      cases hv : (dev.headerAt lba.get).verify lba.get with
      | error e => exact ⟨e, rfl⟩
      | ok u => exact absurd (Header.verify_eq_ok.1 hv) hverified
    rw [read_of_loads hsize hloads, useHeader, he]
    exact ⟨_, _, rfl⟩
end Header

/-- Without its block no header is used. -/
theorem read_of_not_loads (hloads : ¬ dev.Loads lba.get) :
    ∃ e, read lba primaryErr dev = .err e dev ∧ (e = .allocation ∨ e = .readBlockDevice) := by
  rw [read, bind_apply, get_apply, andThen_ok, bind_apply, allocBuffer_apply]
  by_cases hmemory : dev.hasBuffer dev.blockSize = true
  · rw [if_pos hmemory, andThen_ok, bind_apply, readBlock_apply, if_neg fun hlt => hloads ⟨hmemory, hlt⟩]
    exact ⟨_, rfl, Or.inr rfl⟩
  · rw [if_neg hmemory]
    exact ⟨_, rfl, Or.inl rfl⟩

/-- A header that is neither used nor reported nor fatal cannot be read, or its array cannot. -/
theorem read_of_unread (hsize : Header.SIZE ≤ dev.blockSize) (hpanics : ¬ dev.Panics lba.get)
    (hrejects : ¬ dev.Rejects lba.get) (haccepts : ¬ dev.Accepts lba.get) :
    ∃ e, read lba primaryErr dev = .err e dev ∧ (e = .allocation ∨ e = .readBlockDevice) := by
  by_cases hloads : dev.Loads lba.get
  swap
  · exact read_of_not_loads hloads
  have hverified : (dev.headerAt lba.get).Verified lba.get := not_not.1 fun hv => hrejects ⟨hloads, Or.inl hv⟩
  have hn : 0 < (dev.headerAt lba.get).numberOfPartitions := by
    refine pos_of_ne_zero fun hzero => ?_
    by_cases hcrc : (dev.headerAt lba.get).partitionEntryArrayCrc32 = 0
    · exact haccepts ⟨hloads, hverified, Or.inl ⟨hzero, hcrc⟩⟩
    · exact hrejects ⟨hloads, Or.inr ⟨hverified, Or.inl ⟨hzero, hcrc⟩⟩⟩
  have hlen : (dev.headerAt lba.get).arrayLen < 2 ^ 32 :=
    not_le.1 fun hlong => hpanics ⟨hloads, hverified, hn, Or.inl hlong⟩
  have hlba : (dev.headerAt lba.get).partitionEntryLba < u64Size - 1 :=
    not_le.1 fun hlarge => hrejects ⟨hloads, Or.inr ⟨hverified, Or.inr ⟨hn, hlen, Or.inl hlarge⟩⟩⟩
  have hpos : 0 < (dev.headerAt lba.get).sizeOfPartitionEntry :=
    pos_of_ne_zero fun hzero => hpanics ⟨hloads, hverified, hn, Or.inr ⟨hzero, hlba⟩⟩
  -- what is left to fail is memory or the device
  rw [read_entries hsize hloads hverified hn hlen hlba,
    readEntries_apply rfl hn hverified.entrySize (blockSize_pos hsize) hpos]
  split_ifs with hmemory hrange hentryMemory hcrc
  · exact absurd ⟨hloads, hverified, Or.inr ⟨hn, hlen, hlba, hpos, ⟨hmemory, hrange, hentryMemory⟩, hcrc⟩⟩ haccepts
  · exact absurd ⟨hloads, Or.inr ⟨hverified, Or.inr ⟨hn, hlen, Or.inr ⟨hlba, hpos, ⟨hmemory, hrange, hentryMemory⟩,
      hcrc⟩⟩⟩⟩ hrejects
  · exact ⟨_, rfl, Or.inl rfl⟩
  · exact ⟨_, rfl, Or.inr rfl⟩
  · exact ⟨_, rfl, Or.inl rfl⟩

theorem read_ne_fault (hsize : Header.SIZE ≤ dev.blockSize) (hpanics : ¬ dev.Panics lba.get) {f : Fault} :
    read lba primaryErr dev ≠ .fault f := by
  by_cases haccepts : dev.Accepts lba.get
  · rw [read_of_accepts hsize haccepts]
    exact nofun
  by_cases hrejects : dev.Rejects lba.get
  · obtain ⟨e1, e2, herr⟩ := read_of_rejects hsize hrejects
    rw [herr]
    exact nofun
  · obtain ⟨e1, herr, -⟩ := read_of_unread hsize hpanics hrejects haccepts
    rw [herr]
    exact nofun
end Gpt
end WasabiOS
