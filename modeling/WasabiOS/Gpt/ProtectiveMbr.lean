import WasabiOS.BlockDevice.Structs
import WasabiOS.Machinery.Bytes

/-!
# Gpt/ProtectiveMbr — the protective master boot record

The record in block 0 says that the whole disk belongs to one partition.  `verify` only leads to a warning.
Fields that are not read are left out.
-/

open Machinery
namespace WasabiOS
namespace Gpt

/-- number of heads for CHS to LBA conversion -/
def HEADS : ℕ := 255

/-- number of sectors for CHS to LBA conversion -/
def SECTORS : ℕ := 63

/-- outdated CHS system to describe disk locations -/
structure CHS where
  cylinder : ℕ
  head : ℕ
  sector : ℕ
  deriving DecidableEq, Repr

namespace CHS

/-- Create a CHS address from an lba; the remainders always fit a `u8` -/
def fromLba (lba : ℕ) : Option CHS :=
  let temp := lba / SECTORS
  let sector := lba % SECTORS + 1
  let head := temp % HEADS
  let cylinder := temp / HEADS
  if cylinder < 2 ^ 16 then some ⟨cylinder, head, sector⟩ else none

/-- Sentinel used in MBR to mean "unrepresentable CHS" -/
def MAX : CHS := ⟨1023, 254, 63⟩

/-- Encode this CHS into the 3-byte MBR partition table format. -/
def encode (c : CHS) : List UInt8 :=
  if c.cylinder > 1023 || c.head > 254 || c.sector = 0 || c.sector > 63 then [0xFF, 0xFF, 0xFF]
  else
    [UInt8.ofNat c.head, UInt8.ofNat ((c.sector &&& 0x3F) ||| (c.cylinder >>> 8) <<< 6),
      UInt8.ofNat (c.cylinder &&& 0xFF)]
end CHS

inductive InvalidMBRData where
  | mk
  deriving DecidableEq, Repr

/-- Protective Master Boot Record -/
structure PartitionRecord where
  bootIndicator : UInt8
  startingChs : List UInt8
  osType : UInt8
  endingChs : List UInt8
  sizeInLba : ℕ
  deriving DecidableEq, Repr

namespace PartitionRecord

def OS_TYPE_PROTECTIVE : UInt8 := 0xee

def STARTING_CHS : List UInt8 := [0x00, 0x02, 0x00]

/-- Create protective [PartitionRecord] for a disk of the given size: `disk_size - 1` underflows at 0 -/
def new (diskSize : ℕ) : Checked PartitionRecord :=
  if diskSize = 0 then .error .panic
  else .ok
    { bootIndicator := 0
      startingChs := STARTING_CHS
      osType := OS_TYPE_PROTECTIVE
      endingChs := ((CHS.fromLba (diskSize - 1)).getD CHS.MAX).encode
      -- `u32::try_from`
      sizeInLba := if diskSize < 2 ^ 32 then diskSize else 2 ^ 32 - 1 }

/-- verify that the [PartitionRecord] is a valid protective MBR partition -/
def verifyProtectiveMbr (diskSize : ℕ) (r : PartitionRecord) : Except InvalidMBRData Unit :=
  if r.bootIndicator ≠ 0 then .error .mk
  else if r.startingChs ≠ STARTING_CHS then .error .mk
  else if r.osType ≠ OS_TYPE_PROTECTIVE then .error .mk
  else if r.endingChs ≠ ((CHS.fromLba diskSize).getD CHS.MAX).encode then .error .mk
  -- `try_into::<u32>`
  else if r.sizeInLba = (if diskSize < 2 ^ 32 then diskSize else 2 ^ 32 - 1) then .error .mk
  else .ok ()
end PartitionRecord

/-- The entire protective MBR stored at `LBA(0)` -/
structure ProtectiveMBR where
  partitionRecord : PartitionRecord
  signature : List UInt8
  deriving DecidableEq, Repr

namespace ProtectiveMBR

def SIGNATURE : List UInt8 := [0x55, 0xAA]

/-- The record takes 512 bytes, the partition record is at byte 446. -/
def ofBytes (b : List UInt8) : ProtectiveMBR where
  partitionRecord :=
    { bootIndicator := b.getD 446 0
      startingChs := (b.drop 447).take 3
      osType := b.getD 450 0
      endingChs := (b.drop 451).take 3
      sizeInLba := fromLe ((b.drop 458).take 4) }
  signature := (b.drop 510).take 2

def verify (diskSize : ℕ) (mbr : ProtectiveMBR) : Except InvalidMBRData Unit := do
  mbr.partitionRecord.verifyProtectiveMbr diskSize
  if mbr.signature ≠ SIGNATURE then .error .mk
  else .ok ()

def new (diskSize : ℕ) : Checked ProtectiveMBR := do
  return ⟨← PartitionRecord.new diskSize, SIGNATURE⟩

/-- What the UEFI rule stores for a disk: the address and the number of its last block, both saturated. -/
def uefiEnd (diskSize : ℕ) : List UInt8 × ℕ :=
  (((CHS.fromLba (diskSize - 1)).getD CHS.MAX).encode, min (diskSize - 1) (2 ^ 32 - 1))

/-- The record made for a disk is accepted for that disk, and for no other the UEFI rule tells apart. -/
def RoundTrips (size : ℕ) : Prop :=
  ∃ mbr, new size = .ok mbr ∧ mbr.verify size = .ok () ∧
    ∀ other < 2 ^ 64, uefiEnd other ≠ uefiEnd size → mbr.verify other = .error .mk

theorem not_roundTrips_two : ¬ RoundTrips 2 := by
  rintro ⟨mbr, made, accepted, -⟩
  obtain rfl := Except.ok.inj made
  exact absurd accepted (by decide)

theorem refused {size : ℕ} {record : PartitionRecord} (made : PartitionRecord.new size = .ok record) :
    record.verifyProtectiveMbr size = .error .mk := by
  have hne : size ≠ 0 := by
    rintro rfl
    cases made
  rw [PartitionRecord.new, if_neg hne] at made
  obtain rfl := Except.ok.inj made
  simp only [PartitionRecord.verifyProtectiveMbr, ne_eq, not_true_eq_false, if_true, ite_self]

/-- **No record passes its own check**: the size it stores is the one the check refuses. -/
theorem never_roundTrips (size : ℕ) : ¬ RoundTrips size := by
  rintro ⟨mbr, made, accepted, -⟩
  obtain ⟨record, recorded, stored⟩ := bind_eq_ok.1 made
  obtain rfl := Except.ok.inj stored
  rw [verify, refused recorded] at accepted
  cases accepted
end ProtectiveMBR
end Gpt
end WasabiOS
