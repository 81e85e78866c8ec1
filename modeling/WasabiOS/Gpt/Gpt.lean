import WasabiOS.Gpt.ProtectiveMbr
import WasabiOS.Shared.Counts

/-!
# Gpt/Gpt — reading a GUID partition table

The header in block 1 says where the array of partition entries is, and has checksums of itself and of the
array; if it is found to be invalid, the copy in the last block is tried.

`RawDevice` is what the reader sees: the bytes of each block, and for which buffers there is memory.
Integers are natural numbers; products that a `u32` cannot hold are panics.  A block is cast to a record
whatever its size is: a block that is too small is undefined behaviour.
-/

open Machinery Prog
namespace WasabiOS
namespace Gpt

inductive InvalidHeader where
  | invalidSignature
  | invalidHeaderCrc (expected calculated : ℕ)
  | invalidMyLBA (found expected : ℕ)
  | invalidPartitionEntrySize (size : ℕ)
  | invalidLBA (lba : ℕ)
  | invalidEntryArrayCrc (expected calculated : ℕ)
  deriving DecidableEq, Repr

inductive GPTReadError where
  | readBlockDevice
  | allocation
  | invalidHeaders (primary backup : InvalidHeader)
  deriving DecidableEq, Repr

/-! ## Records -/

/-- The bytes of a field. -/
def field (offset size : ℕ) (bytes : List UInt8) : List UInt8 := (bytes.drop offset).take size

/-- a GPT Header -/
@[ext] structure Header where
  signature : List UInt8
  revision : ℕ
  headerSize : ℕ
  headerCrc32 : ℕ
  reserved : ℕ
  myLba : ℕ
  alternateLba : ℕ
  firstUsableLba : ℕ
  lastUsableLba : ℕ
  diskGuid : List UInt8
  partitionEntryLba : ℕ
  numberOfPartitions : ℕ
  sizeOfPartitionEntry : ℕ
  partitionEntryArrayCrc32 : ℕ
  deriving DecidableEq, Repr

namespace Header

/-- `size_of::<Header>()` -/
def SIZE : ℕ := 96

def ofBytes (b : List UInt8) : Header where
  signature := field 0 8 b
  revision := fromLe (field 8 4 b)
  headerSize := fromLe (field 12 4 b)
  headerCrc32 := fromLe (field 16 4 b)
  reserved := fromLe (field 20 4 b)
  myLba := fromLe (field 24 8 b)
  alternateLba := fromLe (field 32 8 b)
  firstUsableLba := fromLe (field 40 8 b)
  lastUsableLba := fromLe (field 48 8 b)
  diskGuid := field 56 16 b
  partitionEntryLba := fromLe (field 72 8 b)
  numberOfPartitions := fromLe (field 80 4 b)
  sizeOfPartitionEntry := fromLe (field 84 4 b)
  partitionEntryArrayCrc32 := fromLe (field 88 4 b)

/-- The header with the given checksum, as it is stored. -/
def toBytes (crc : ℕ) (h : Header) : List UInt8 :=
  h.signature ++ toLe 4 h.revision ++ toLe 4 h.headerSize ++ toLe 4 crc ++ toLe 4 h.reserved ++
    toLe 8 h.myLba ++ toLe 8 h.alternateLba ++ toLe 8 h.firstUsableLba ++ toLe 8 h.lastUsableLba ++
    h.diskGuid ++ toLe 8 h.partitionEntryLba ++ toLe 4 h.numberOfPartitions ++
    toLe 4 h.sizeOfPartitionEntry ++ toLe 4 h.partitionEntryArrayCrc32

/-- Calculate the crc32 for the header; the CRC must be written as 0 -/
def calculateCrc32 (h : Header) : ℕ := crc32 (h.toBytes 0)

/-- `b"EFI PART"` -/
def SIGNATURE : List UInt8 := [0x45, 0x46, 0x49, 0x20, 0x50, 0x41, 0x52, 0x54]

/-- Verify that the header valid -/
def verify (headerLba : ℕ) (h : Header) : Except InvalidHeader Unit :=
  if h.signature ≠ SIGNATURE then .error .invalidSignature
  else if h.headerCrc32 ≠ h.calculateCrc32 then .error (.invalidHeaderCrc h.headerCrc32 h.calculateCrc32)
  else if h.myLba ≠ headerLba then .error (.invalidMyLBA h.myLba headerLba)
  else if h.sizeOfPartitionEntry % 128 ≠ 0 then .error (.invalidPartitionEntrySize h.sizeOfPartitionEntry)
  else .ok ()
end Header

/-- A partition entry for a GPT -/
@[ext] structure PartitionEntry where
  rawTypeGuid : List UInt8
  rawGuid : List UInt8
  startingLba : ℕ
  endingLba : ℕ
  attributes : ℕ
  partitionName : List UInt8
  deriving DecidableEq, Repr

namespace PartitionEntry

/-- `size_of::<PartitionEntry>()` -/
def SIZE : ℕ := 128

def ofBytes (b : List UInt8) : PartitionEntry where
  rawTypeGuid := field 0 16 b
  rawGuid := field 16 16 b
  startingLba := fromLe (field 32 8 b)
  endingLba := fromLe (field 40 8 b)
  attributes := fromLe (field 48 8 b)
  partitionName := field 56 72 b

/-- The entry as it is stored. -/
def toBytes (e : PartitionEntry) : List UInt8 :=
  e.rawTypeGuid ++ e.rawGuid ++ toLe 8 e.startingLba ++ toLe 8 e.endingLba ++ toLe 8 e.attributes ++
    e.partitionName

def isUsed (e : PartitionEntry) : Bool := e.rawTypeGuid ≠ List.replicate 16 0
end PartitionEntry

/-! ## Reading -/

/-- A device and the memory for what is read. -/
structure RawDevice where
  blockSize : ℕ
  /-- The size in blocks -/
  size : ℕ
  size_lt : size < u64Size
  block : ℕ → List UInt8
  length_block : ∀ lba, (block lba).length = blockSize
  /-- there is memory for a buffer of that length -/
  hasMemory : ℕ → Bool

/-- The bytes of blocks in a row. -/
def RawDevice.bytesFrom (dev : RawDevice) (start count : ℕ) : List UInt8 :=
  (List.range count).flatMap fun i => dev.block (start + i)

/-- There is memory for a buffer; an empty one takes none. -/
def RawDevice.hasBuffer (dev : RawDevice) (len : ℕ) : Bool := len = 0 || dev.hasMemory len

/-- `alloc_buffer_aligned` -/
def allocBuffer (len : ℕ) : Prog RawDevice GPTReadError Unit := do
  let dev ← Prog.get
  if dev.hasBuffer len then return () else Prog.throw .allocation

def readBlock (lba : LBA) : Prog RawDevice GPTReadError (List UInt8) := do
  let dev ← Prog.get
  if lba.get < dev.size then return dev.block lba.get else Prog.throw .readBlockDevice

def readBlocksContig (start : LBA) (blockCount : ℕ) : Prog RawDevice GPTReadError (List UInt8) := do
  let dev ← Prog.get
  if start.get + blockCount ≤ dev.size then return dev.bytesFrom start.get blockCount
  else Prog.throw .readBlockDevice

/-- the address of the last valid block on the device -/
def lastLba (dev : RawDevice) : Checked LBA :=
  if 0 < dev.size then
    match LBA.new (dev.size - 1) with
    | some lba => .ok lba
    | none => .error .panic
  else .error .panic

/-- A record is cast from a block. -/
def castBlock {α : Type} (size : ℕ) (ofBytes : List UInt8 → α) (block : List UInt8) : Checked α :=
  if size ≤ block.length then .ok (ofBytes block) else .error .undefined

/-- The loop over the entries. -/
def decodeEntries (arrayData : List UInt8) (entrySize : ℕ) : (count offset : ℕ) → Checked (List PartitionEntry)
  | 0, _ => return []
  | count + 1, offset => do
    if offset < arrayData.length ∧ offset + PartitionEntry.SIZE ≤ arrayData.length then
      let rest ← decodeEntries arrayData entrySize count (offset + entrySize)
      return PartitionEntry.ofBytes (field offset PartitionEntry.SIZE arrayData) :: rest
    else .error .panic

/-- The entries, and the check of the array. -/
def readEntries (header : Header) (arrayStart : LBA) : Prog RawDevice GPTReadError (List PartitionEntry) := do
  let dev ← Prog.get
  let arrayLen := header.sizeOfPartitionEntry * header.numberOfPartitions
  let blockCount := countsRequiredFor dev.blockSize arrayLen
  allocBuffer (blockCount * dev.blockSize)
  -- `NonZeroU64::new`
  assert (blockCount ≠ 0)
  let arrayData ← readBlocksContig arrayStart blockCount
  allocBuffer (header.numberOfPartitions * PartitionEntry.SIZE)
  let partitions ← lift (decodeEntries arrayData header.sizeOfPartitionEntry header.numberOfPartitions 0)
  let partitionArrayCrc := crc32 (arrayData.take arrayLen)
  if partitionArrayCrc ≠ header.partitionEntryArrayCrc32 then
    let err := .invalidEntryArrayCrc header.partitionEntryArrayCrc32 partitionArrayCrc
    Prog.throw (.invalidHeaders err err)
  else return partitions

/-- The array of entries, if there are any.  Its length is a `u32`. -/
def readArray (header : Header) (primaryErr : Option InvalidHeader) :
    Prog RawDevice GPTReadError (List PartitionEntry) := do
  assert (header.sizeOfPartitionEntry * header.numberOfPartitions < 2 ^ 32)
  match LBA.new header.partitionEntryLba with
  | none =>
    let err := .invalidLBA header.partitionEntryLba
    Prog.throw (.invalidHeaders (primaryErr.getD err) err)
  | some arrayStart => readEntries header arrayStart

/-- The header is verified and its array read. -/
def useHeader (header : Header) (headerLba : LBA) (primaryErr : Option InvalidHeader) :
    Prog RawDevice GPTReadError (Header × List PartitionEntry) :=
  match header.verify headerLba.get with
  | .error invalidHeader => Prog.throw (.invalidHeaders (primaryErr.getD invalidHeader) invalidHeader)
  | .ok _ =>
    if header.numberOfPartitions = 0 then
      if header.partitionEntryArrayCrc32 ≠ 0 then
        let err := .invalidEntryArrayCrc header.partitionEntryArrayCrc32 0
        Prog.throw (.invalidHeaders (primaryErr.getD err) err)
      else return (header, [])
    else do
      let partitions ← readArray header primaryErr
      return (header, partitions)

/-- `read_gpt::read` -/
def read (headerLba : LBA) (primaryErr : Option InvalidHeader) :
    Prog RawDevice GPTReadError (Header × List PartitionEntry) := do
  let dev ← Prog.get
  allocBuffer dev.blockSize
  let headerBlock ← readBlock headerLba
  let header ← lift (castBlock Header.SIZE Header.ofBytes headerBlock)
  useHeader header headerLba primaryErr

structure GPT where
  header : Header
  partitions : List PartitionEntry
  warnInvalidMbr : Option InvalidMBRData
  warnInvalidPrimaryHeader : Option InvalidHeader
  deriving DecidableEq, Repr

def GPT.iterPartitions (gpt : GPT) : List PartitionEntry := gpt.partitions.takeWhile PartitionEntry.isUsed

/-- `Result::err` -/
def errOf {ε α : Type} : Except ε α → Option ε
  | .ok _ => none
  | .error e => some e

/-- The header in block 1, or its copy in the last block. -/
def readHeaders (warnInvalidMbr : Option InvalidMBRData) : Prog RawDevice GPTReadError GPT := do
  match ← attempt (read LBA.ONE none) with
  | .ok (header, partitions) => return ⟨header, partitions, warnInvalidMbr, none⟩
  | .error (.invalidHeaders warnInvalidPrimaryHeader _) =>
    let dev ← Prog.get
    let last ← lift (lastLba dev)
    let (backupHeader, partitions) ← read last (some warnInvalidPrimaryHeader)
    return ⟨backupHeader, partitions, warnInvalidMbr, some warnInvalidPrimaryHeader⟩
  | .error err => Prog.throw err

def readGpt : Prog RawDevice GPTReadError GPT := do
  let dev ← Prog.get
  allocBuffer dev.blockSize
  let mbrBlock ← readBlock LBA.ZERO
  let mbr ← lift (castBlock 512 ProtectiveMBR.ofBytes mbrBlock)
  readHeaders (errOf (mbr.verify dev.size))
end Gpt
end WasabiOS
