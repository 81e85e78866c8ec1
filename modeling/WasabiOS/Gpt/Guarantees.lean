import WasabiOS.Gpt.ReadGpt

/-!
# Gpt/Guarantees — what a caller may rely on

A table that is returned is the one its checksums were computed for (`intact_of_readGpt`).  Of a valid table
in block 1 all used partitions are listed exactly when none follows an unused entry and the array is short
enough (`readsExactly_iff`).  The copy replaces a header only when that was reported as invalid, and headers
with entries of size zero or with long arrays are fatal (`robust_iff`).
-/

open Machinery Prog
namespace WasabiOS
namespace Gpt
open List Option
variable {dev : RawDevice}

/-! ## Small devices -/

/-- A block with the given bytes in front. -/
def padded (bytes : List UInt8) : List UInt8 := (bytes ++ List.replicate 512 0).take 512

/-- A device of three blocks: a header in block 1 with its own checksum, and an array in block 2. -/
def smallDevice (h : Header) (array : List UInt8) : RawDevice where
  blockSize := 512
  size := 3
  size_lt := by decide
  block lba := padded (if lba = 1 then h.toBytes h.calculateCrc32 else if lba = 2 then array else [])
  length_block lba := by
    rw [padded, length_take, length_append, length_replicate]
    omega
  hasMemory _ := true

/-- A header of block 1 for an array in block 2. -/
def smallHeader (entryCount entrySize arrayCrc : ℕ) : Header where
  signature := Header.SIGNATURE
  revision := 0x10000
  headerSize := 92
  headerCrc32 := 0
  reserved := 0
  myLba := 1
  alternateLba := 2
  firstUsableLba := 3
  lastUsableLba := 2
  diskGuid := List.replicate 16 0
  partitionEntryLba := 2
  numberOfPartitions := entryCount
  sizeOfPartitionEntry := entrySize
  partitionEntryArrayCrc32 := arrayCrc

/-- One partition. -/
def oneUsed : RawDevice := smallDevice (smallHeader 1 128 890172475) (List.replicate 128 1)

theorem oneUsed_accepts : oneUsed.Accepts 1 := by decide +kernel

/-- A partition in the second of two entries. -/
def secondUsed : RawDevice := smallDevice (smallHeader 2 128 4197485566) (List.replicate 128 0 ++ List.replicate 128 1)

theorem secondUsed_arrayCrc : secondUsed.arrayCrc (secondUsed.headerAt 1) = 4197485566 := by
  have hbytes : (secondUsed.arrayBytes (secondUsed.headerAt 1)).take (secondUsed.headerAt 1).arrayLen =
      List.replicate 128 0 ++ List.replicate 128 1 := by decide +kernel
  have hzeros : (List.replicate 128 0).foldl crcByte 0xFFFFFFFF = 1029113186 := by decide +kernel
  rw [RawDevice.arrayCrc, hbytes, crc32, foldl_append, hzeros]
  decide +kernel

theorem secondUsed_accepts : secondUsed.Accepts 1 := by
  refine ⟨by decide, by decide +kernel, Or.inr ⟨?_, ?_, ?_, ?_, ?_, ?_⟩⟩
  · decide +kernel
  · decide +kernel
  · decide +kernel
  · decide +kernel
  · decide +kernel
  · rw [secondUsed_arrayCrc]
    decide +kernel

/-! ## Integrity -/

/-- An entry is what its bytes say. -/
theorem PartitionEntry.toBytes_ofBytes {b : List UInt8} (hlen : b.length = SIZE) : (ofBytes b).toBytes = b := by
  have hlen' : b.length = 128 := hlen
  have hle : ∀ offset, offset + 8 ≤ 128 → toLe 8 (fromLe (field offset 8 b)) = field offset 8 b := by
    intro offset hoffset
    have hfield : (field offset 8 b).length = 8 := by
      rw [field, length_take, length_drop, hlen']
      omega
    calc toLe 8 (fromLe (field offset 8 b))
        = toLe (field offset 8 b).length (fromLe (field offset 8 b)) := by rw [hfield]
      _ = field offset 8 b := toLe_fromLe _
  have hjoin : ∀ offset size size', field offset size b ++ field (offset + size) size' b =
      field offset (size + size') b := by
    intro offset size size'
    rw [field, field, field, take_add, drop_drop]
  rw [toBytes, ofBytes]
  dsimp only
  rw [hle 32 (by decide), hle 40 (by decide), hle 48 (by decide), hjoin 0 16 16, hjoin 0 32 8, hjoin 0 40 8,
    hjoin 0 48 8, hjoin 0 56 72, field, drop_zero, take_of_length_le hlen'.le]

/-- The table is the one on the device that its checksums were computed for. -/
structure Intact (dev : RawDevice) (gpt : GPT) : Prop where
  stored : gpt.header = dev.headerAt gpt.header.myLba
  place : gpt.header.myLba = 1 ∨ gpt.header.myLba = dev.size - 1 ∧ dev.Rejects 1
  headerCrc : gpt.header.headerCrc32 = gpt.header.calculateCrc32
  length : gpt.partitions.length = gpt.header.numberOfPartitions
  -- the blocks hold the whole array
  arrayLen : gpt.header.numberOfPartitions * gpt.header.sizeOfPartitionEntry ≤ (dev.arrayBytes gpt.header).length
  entry : ∀ i < gpt.header.numberOfPartitions, (gpt.partitions[i]?).map PartitionEntry.toBytes =
    some (field (i * gpt.header.sizeOfPartitionEntry) 128 (dev.arrayBytes gpt.header))
  arrayCrc : crc32 ((dev.arrayBytes gpt.header).take
    (gpt.header.numberOfPartitions * gpt.header.sizeOfPartitionEntry)) = gpt.header.partitionEntryArrayCrc32

theorem RawDevice.length_entries (h : Header) : (dev.entries h).length = h.numberOfPartitions := by
  rw [entries, length_map, length_range]

/-- The bytes of an entry are the bytes it was read from. -/
theorem RawDevice.entries_toBytes {h : Header} (hsize : 0 < dev.blockSize) (hpos : 0 < h.sizeOfPartitionEntry)
    (hmod : h.sizeOfPartitionEntry % 128 = 0) {i : ℕ} (hi : i < h.numberOfPartitions) :
    ((dev.entries h)[i]?).map PartitionEntry.toBytes =
      some (field (i * h.sizeOfPartitionEntry) 128 (dev.arrayBytes h)) := by
  have hend : i * h.sizeOfPartitionEntry + 128 ≤ (dev.arrayBytes h).length := entry_le hpos hmod hsize hi
  have hlen : (field (i * h.sizeOfPartitionEntry) PartitionEntry.SIZE (dev.arrayBytes h)).length =
      PartitionEntry.SIZE := by
    rw [field, length_take, length_drop, PartitionEntry.SIZE]
    omega
  rw [entries, getElem?_map, getElem?_range hi, map_some, map_some,
    PartitionEntry.toBytes_ofBytes hlen, PartitionEntry.SIZE]

/-- **Integrity.** -/
theorem intact_of_readGpt {dev' : RawDevice} {gpt : GPT} (hread : readGpt dev = .ok gpt dev')
    (hsome : gpt.partitions ≠ []) : Intact dev gpt := by
  obtain ⟨-, hsize, n, haccepts, hheader, hpartitions, hplace⟩ := accepts_of_readGpt hread
  have hblock : 0 < dev.blockSize := lt_of_lt_of_le (by decide) hsize
  obtain ⟨-, hverified, harray⟩ := haccepts
  rw [← hheader] at hverified harray hpartitions
  have hlength : gpt.partitions.length = gpt.header.numberOfPartitions := by
    rw [hpartitions, RawDevice.length_entries]
  have hn : 0 < gpt.header.numberOfPartitions := by
    rw [← hlength]
    exact length_pos_of_ne_nil hsome
  obtain ⟨-, -, -, hpos, -, hcrc⟩ := harray.resolve_left fun hnone => hn.ne' hnone.1
  have hmul : gpt.header.numberOfPartitions * gpt.header.sizeOfPartitionEntry = gpt.header.arrayLen := Nat.mul_comm _ _
  refine ⟨?_, ?_, hverified.crc, hlength, ?_, ?_, ?_⟩
  · rw [hverified.myLba]
    exact hheader
  · rw [hverified.myLba]
    exact hplace.imp And.left fun hcopy => ⟨hcopy.1, hcopy.2.1⟩
  · rw [hmul]
    exact dev.arrayLen_le hblock
  · intro i hi
    rw [hpartitions]
    exact RawDevice.entries_toBytes hblock hpos hverified.entrySize hi
  · rw [hmul]
    exact hcrc

theorem intact_oneUsed : ∃ gpt, readGpt oneUsed = .ok gpt oneUsed ∧ gpt.partitions ≠ [] ∧ Intact oneUsed gpt := by
  have hread := readGpt_of_accepts ⟨rfl, Nat.succ_pos _⟩ le_rfl oneUsed_accepts
  have hsome : oneUsed.entries (oneUsed.headerAt 1) ≠ [] := by decide +kernel
  exact ⟨_, hread, hsome, intact_of_readGpt hread hsome⟩

/-! ## Exactness -/

/-- A valid table starts in block 1. -/
structure ValidPrimary (dev : RawDevice) : Prop where
  inRange : 1 < dev.size
  verified : (dev.headerAt 1).Verified 1
  entrySize : 0 < (dev.headerAt 1).sizeOfPartitionEntry
  arrayInRange : 0 < (dev.headerAt 1).numberOfPartitions →
    (dev.headerAt 1).partitionEntryLba + dev.blockCount (dev.headerAt 1) ≤ dev.size
  arrayCrc : dev.arrayCrc (dev.headerAt 1) = (dev.headerAt 1).partitionEntryArrayCrc32

/-- The header of block 1 is returned, and its used entries are listed. -/
def ReadsExactly (dev : RawDevice) : Prop := ∃ gpt, readGpt dev = .ok gpt dev ∧ gpt.header = dev.headerAt 1 ∧
    gpt.iterPartitions = (dev.entries (dev.headerAt 1)).filter PartitionEntry.isUsed

/-- There is memory to read the table, and its size is a `u32`. -/
structure Fits (dev : RawDevice) : Prop where
  blockMemory : dev.hasBuffer dev.blockSize = true
  arrayLen : (dev.headerAt 1).arrayLen < 2 ^ 32
  arrayMemory : 0 < (dev.headerAt 1).numberOfPartitions →
    dev.hasBuffer (dev.blockCount (dev.headerAt 1) * dev.blockSize) = true ∧
      dev.hasBuffer ((dev.headerAt 1).numberOfPartitions * PartitionEntry.SIZE) = true

/-- No used entry follows an unused one. -/
def Gapless (entries : List PartitionEntry) : Prop := entries.Pairwise fun e e' => e'.isUsed → e.isUsed

theorem takeWhile_eq_filter_iff {α : Type} {p : α → Bool} {l : List α} :
    l.takeWhile p = l.filter p ↔ l.Pairwise fun a b => p b → p a := by
  induction l with
  | nil => exact iff_of_true rfl List.Pairwise.nil
  | cons a l ih =>
    rw [pairwise_cons]
    by_cases ha : p a = true
    · rw [takeWhile_cons_of_pos ha, filter_cons_of_pos ha, cons_inj_right, ih]
      exact ⟨fun h => ⟨fun _ _ _ => ha, h⟩, And.right⟩
    · -- nothing behind `a` is taken, so nothing may pass the filter
      rw [takeWhile_cons_of_neg ha, filter_cons_of_neg ha, eq_comm, filter_eq_nil_iff]
      refine ⟨fun h => ⟨fun b hb hpb => absurd hpb (h b hb), ?_⟩, fun h b hb hpb => ha (h.1 b hb hpb)⟩
      exact pairwise_of_forall_mem_list fun b _ c hc hpc => absurd hpc (h c hc)

namespace ValidPrimary
variable (hvalid : ValidPrimary dev)
include hvalid

theorem arrayCrc_eq_zero (hn : (dev.headerAt 1).numberOfPartitions = 0) :
    (dev.headerAt 1).partitionEntryArrayCrc32 = 0 := by
  rw [← hvalid.arrayCrc, RawDevice.arrayCrc, Header.arrayLen, hn, mul_zero, take_zero, crc32_nil]

theorem partitionEntryLba_lt (hsize : 0 < dev.blockSize) (hn : 0 < (dev.headerAt 1).numberOfPartitions) :
    (dev.headerAt 1).partitionEntryLba < u64Size - 1 := by
  have hcount : 0 < dev.blockCount (dev.headerAt 1) := blockCount_pos (mul_pos hvalid.entrySize hn) hsize
  have hrange := hvalid.arrayInRange hn
  have hdevice := dev.size_lt
  omega

theorem not_rejects (hsize : 0 < dev.blockSize) : ¬ dev.Rejects 1 := by
  rintro ⟨-, hinvalid⟩
  obtain ⟨-, ⟨hn, hcrc⟩ | ⟨hn, -, hlba | ⟨-, -, -, hcrc⟩⟩⟩ := hinvalid.resolve_left (not_not.2 hvalid.verified)
  · exact hcrc (hvalid.arrayCrc_eq_zero hn)
  · exact absurd (hvalid.partitionEntryLba_lt hsize hn) (not_lt.2 hlba)
  · exact hcrc hvalid.arrayCrc

theorem accepts_iff_fits (hsize : 0 < dev.blockSize) : dev.Accepts 1 ↔ Fits dev := by
  constructor
  · rintro ⟨hloads, -, ⟨hn, -⟩ | ⟨-, hlen, -, -, hreadable, -⟩⟩
    · refine ⟨hloads.1, ?_, fun hpos => absurd hn hpos.ne'⟩
      rw [Header.arrayLen, hn, mul_zero]
      decide
    · exact ⟨hloads.1, hlen, fun _ => ⟨hreadable.memory, hreadable.entryMemory⟩⟩
  · intro hfits
    refine ⟨⟨hfits.blockMemory, hvalid.inRange⟩, hvalid.verified, ?_⟩
    obtain hn | hn := eq_zero_or_pos (dev.headerAt 1).numberOfPartitions
    · exact Or.inl ⟨hn, hvalid.arrayCrc_eq_zero hn⟩
    · obtain ⟨hmemory, hentryMemory⟩ := hfits.arrayMemory hn
      exact Or.inr ⟨hn, hfits.arrayLen, hvalid.partitionEntryLba_lt hsize hn, hvalid.entrySize,
        ⟨hmemory, hvalid.arrayInRange hn, hentryMemory⟩, hvalid.arrayCrc⟩
end ValidPrimary

/-- **Exactness.**  A used entry behind an unused one is not listed. -/
theorem readsExactly_iff (hvalid : ValidPrimary dev) :
    ReadsExactly dev ↔ 512 ≤ dev.blockSize ∧ Fits dev ∧ Gapless (dev.entries (dev.headerAt 1)) := by
  constructor
  · rintro ⟨gpt, hread, -, hlist⟩
    obtain ⟨-, hsize, n, haccepts, -, hpartitions, hplace⟩ := accepts_of_readGpt hread
    have hblock : 0 < dev.blockSize := lt_of_lt_of_le (by decide) hsize
    obtain ⟨rfl, -⟩ := hplace.resolve_right fun hcopy => hvalid.not_rejects hblock hcopy.2.1
    rw [GPT.iterPartitions, hpartitions, takeWhile_eq_filter_iff] at hlist
    exact ⟨hsize, (hvalid.accepts_iff_fits hblock).1 haccepts, hlist⟩
  · rintro ⟨hsize, hfits, hgapless⟩
    have hloads : dev.Loads 0 := ⟨hfits.blockMemory, Nat.zero_lt_of_lt hvalid.inRange⟩
    have haccepts := (hvalid.accepts_iff_fits (lt_of_lt_of_le (by decide) hsize)).2 hfits
    exact ⟨_, readGpt_of_accepts hloads hsize haccepts, rfl, takeWhile_eq_filter_iff.2 hgapless⟩

theorem readsExactly_oneUsed : ValidPrimary oneUsed ∧ ReadsExactly oneUsed := by
  have hvalid : ValidPrimary oneUsed :=
    ⟨by decide, by decide +kernel, by decide +kernel, by decide +kernel, by decide +kernel⟩
  have hfits : Fits oneUsed := (hvalid.accepts_iff_fits (by decide)).1 oneUsed_accepts
  have hgapless : Gapless (oneUsed.entries (oneUsed.headerAt 1)) := pairwise_singleton _ _
  exact ⟨hvalid, (readsExactly_iff hvalid).2 ⟨le_rfl, hfits, hgapless⟩⟩

theorem not_readsExactly_secondUsed : ValidPrimary secondUsed ∧ ¬ ReadsExactly secondUsed := by
  have hcrc : secondUsed.arrayCrc (secondUsed.headerAt 1) = (secondUsed.headerAt 1).partitionEntryArrayCrc32 := by
    rw [secondUsed_arrayCrc]
    decide +kernel
  refine ⟨⟨by decide, by decide +kernel, by decide +kernel, by decide +kernel, hcrc⟩, ?_⟩
  rintro ⟨gpt, hread, -, hlist⟩
  rw [readGpt_of_accepts ⟨rfl, Nat.succ_pos _⟩ le_rfl secondUsed_accepts] at hread
  cases hread
  revert hlist
  decide +kernel

/-! ## Robustness -/

/-- The header in a block and its array are valid, and there is memory for them. -/
structure RawDevice.Usable (dev : RawDevice) (n : ℕ) : Prop where
  loads : dev.Loads n
  verified : (dev.headerAt n).Verified n
  entrySize : 0 < (dev.headerAt n).sizeOfPartitionEntry
  readable : 0 < (dev.headerAt n).numberOfPartitions → dev.ArrayReadable (dev.headerAt n)
  arrayCrc : dev.arrayCrc (dev.headerAt n) = (dev.headerAt n).partitionEntryArrayCrc32

/-- A usable header is used unless its array is too long. -/
theorem RawDevice.Usable.accepts {n : ℕ} (hsize : 0 < dev.blockSize) (husable : dev.Usable n)
    (hpanics : ¬ dev.Panics n) : dev.Accepts n := by
  obtain ⟨hloads, hverified, hpos, hreadable, hcrc⟩ := husable
  refine ⟨hloads, hverified, ?_⟩
  obtain hn | hn := eq_zero_or_pos (dev.headerAt n).numberOfPartitions
  · refine Or.inl ⟨hn, ?_⟩
    rw [← hcrc, RawDevice.arrayCrc, Header.arrayLen, hn, mul_zero, take_zero, crc32_nil]
  · have hlen : (dev.headerAt n).arrayLen < 2 ^ 32 :=
      not_le.1 fun hlong => hpanics ⟨hloads, hverified, hn, Or.inl hlong⟩
    have hcount : 0 < dev.blockCount (dev.headerAt n) := blockCount_pos (mul_pos hpos hn) hsize
    have hrange := (hreadable hn).inRange
    have hdevice := dev.size_lt
    exact Or.inr ⟨hn, hlen, by omega, hpos, hreadable hn, hcrc⟩

/-- Whatever the device holds, reading it ends in a result, and a valid copy replaces a header that is of no
use. -/
structure Robust (dev : RawDevice) : Prop where
  noFault : ∀ f, readGpt dev ≠ .fault f
  copy : dev.Usable (dev.size - 1) → ¬ dev.Usable 1 →
    ∃ gpt, readGpt dev = .ok gpt dev ∧ gpt.header = dev.headerAt (dev.size - 1) ∧
      gpt.partitions = dev.entries (dev.headerAt (dev.size - 1)) ∧ gpt.warnInvalidPrimaryHeader ≠ none

/-- No header that is looked at is fatal. -/
def Harmless (dev : RawDevice) : Prop :=
  dev.Loads 0 → 512 ≤ dev.blockSize ∧ ¬ dev.Panics 1 ∧ (dev.Rejects 1 → ¬ dev.Panics (dev.size - 1))

theorem harmless_of_noFault (hnone : ∀ f, readGpt dev ≠ .fault f) : Harmless dev := by
  intro hloads
  have hsize : 512 ≤ dev.blockSize := not_lt.1 fun hsmall => hnone _ (readGpt_of_small hloads hsmall)
  refine ⟨hsize, fun hpanics => hnone _ (readGpt_of_panics hloads hsize hpanics), fun hrejects hpanics => ?_⟩
  obtain ⟨e, last, hlast, hcopy⟩ := readGpt_of_rejects hloads hsize hrejects
  rw [← hlast] at hpanics
  rw [read_of_panics (headerSize_le hsize) hpanics] at hcopy
  exact hnone _ hcopy

theorem noFault_of_harmless (hharmless : Harmless dev) (f : Fault) : readGpt dev ≠ .fault f := by
  intro hfault
  by_cases hloads : dev.Loads 0
  swap
  · obtain ⟨e, he⟩ := readGpt_of_not_loads hloads
    rw [he] at hfault
    cases hfault
  obtain ⟨hsize, hpanics, hcopyPanics⟩ := hharmless hloads
  have hheader := headerSize_le hsize
  by_cases haccepts : dev.Accepts 1
  · rw [readGpt_of_accepts hloads hsize haccepts] at hfault
    cases hfault
  by_cases hrejects : dev.Rejects 1
  swap
  · obtain ⟨e, he⟩ := readGpt_of_unread hloads hsize hpanics hrejects haccepts
    rw [he] at hfault
    cases hfault
  obtain ⟨e, last, hlast, hcopy⟩ := readGpt_of_rejects hloads hsize hrejects
  have hlastPanics : ¬ dev.Panics last.get := by
    rw [hlast]
    exact hcopyPanics hrejects
  rw [hcopy] at hfault
  exact read_ne_fault hheader hlastPanics (andThen_pure_eq_fault.1 hfault)

/-- **Robustness.** -/
theorem robust_iff : Robust dev ↔ Harmless dev ∧ (dev.Usable (dev.size - 1) → ¬ dev.Usable 1 → dev.Rejects 1) := by
  constructor
  · intro hrobust
    refine ⟨harmless_of_noFault hrobust.noFault, fun hlast hprimary => ?_⟩
    obtain ⟨gpt, hread, -, -, hwarn⟩ := hrobust.copy hlast hprimary
    obtain ⟨-, -, n, -, -, -, hplace⟩ := accepts_of_readGpt hread
    exact (hplace.resolve_left fun hfirst => hwarn hfirst.2).2.1
  · rintro ⟨hharmless, hreported⟩
    refine ⟨noFault_of_harmless hharmless, fun husable hprimary => ?_⟩
    have hrejects := hreported husable hprimary
    have hloads : dev.Loads 0 := ⟨husable.loads.1, Nat.zero_lt_of_lt husable.loads.2⟩
    obtain ⟨hsize, -, hcopyPanics⟩ := hharmless hloads
    have haccepts := husable.accepts (lt_of_lt_of_le (by decide) hsize) (hcopyPanics hrejects)
    obtain ⟨e, last, hlast, hcopy⟩ := readGpt_of_rejects hloads hsize hrejects
    rw [← hlast] at haccepts ⊢
    rw [read_of_accepts (headerSize_le hsize) haccepts] at hcopy
    exact ⟨_, hcopy, rfl, rfl, some_ne_none e⟩

/-- A header with an entry of size zero. -/
def zeroSized : RawDevice := smallDevice (smallHeader 1 0 0) []

theorem not_robust_zeroSized : ¬ Robust zeroSized := by
  intro hrobust
  have hpanics : zeroSized.Panics 1 := by decide +kernel
  exact hrobust.noFault _ (readGpt_of_panics ⟨rfl, Nat.succ_pos _⟩ le_rfl hpanics)
end Gpt
end WasabiOS
