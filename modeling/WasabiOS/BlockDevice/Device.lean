import WasabiOS.BlockDevice.Structs

/-!
# BlockDevice/Device — the block device interface, a device that never fails, and one that may

A device is used through `BlockDevice`: whole blocks of type `B`, ranges of blocks as bytes, and the
atomic exchange of one block.  `Disk B` is the device on which every operation succeeds; besides the
blocks it records the block writes issued to it, in order, which is what a crash cuts short.
`FlakyDisk B` is a disk whose operations fail at given points in time.
-/

open Machinery Prog
namespace WasabiOS
open List

/-- The size of a block in bytes. -/
def BLOCK_SIZE : ℕ := 4096

/-! ## The bytes and addresses of groups -/

namespace BlockGroup
variable {b : ℕ}

/-- The number of bytes of the group, which need not be a `u64`. -/
def size (g : BlockGroup) : ℕ := g.count * BLOCK_SIZE

/-- The addresses of the group, in order. -/
def addresses (g : BlockGroup) : List ℕ := range' g.start.get g.count

/-- The number of bytes of a list of groups. -/
def totalSize (gs : List BlockGroup) : ℕ := (gs.map BlockGroup.size).sum

theorem totalSize_cons (g : BlockGroup) (gs : List BlockGroup) : totalSize (g :: gs) = g.size + totalSize gs := sum_cons

theorem totalSize_nil : totalSize [] = 0 := rfl

/-- The blocks of a list of groups, in order. -/
def blocksOf (gs : List BlockGroup) : List ℕ := gs.flatMap BlockGroup.addresses

theorem blocksOf_cons (g : BlockGroup) (gs : List BlockGroup) : blocksOf (g :: gs) = g.addresses ++ blocksOf gs := rfl

theorem blocksOf_singleton (g : BlockGroup) : blocksOf [g] = g.addresses := append_nil _

@[simp] theorem length_addresses (g : BlockGroup) : g.addresses.length = g.count := length_range'

variable {g : BlockGroup}

theorem size_pos (g : BlockGroup) : 0 < g.size := mul_pos g.count_pos (by decide)

theorem bytes_of_lt (h : g.size < u64Size) : g.bytes BLOCK_SIZE = .ok g.size := if_pos h

theorem lt_of_bytes (h : g.bytes BLOCK_SIZE = .ok b) : g.size < u64Size := by
  by_contra hlt
  have hpanic : g.bytes BLOCK_SIZE = .error .panic := if_neg hlt
  rw [hpanic] at h
  cases h

theorem eq_size_of_bytes (h : g.bytes BLOCK_SIZE = .ok b) : b = g.size :=
  Except.ok.inj (h.symm.trans (bytes_of_lt (lt_of_bytes h)))
end BlockGroup

/-! ## The interface -/

/-- What a device operation fails with. -/
inductive DeviceError where
  /-- the device itself -/
  | device
  /-- no memory for the buffer -/
  | allocation
  | notEnoughData (expected size : ℕ)
  /-- `CompareExchangeError::OutdatedData`, once boxed -/
  | outdatedData
  deriving DecidableEq, Repr

/-- The byte view of a block: partial writes and byte reads go through it. -/
class BlockBytes (B : Type) where
  toBytes : B → List UInt8
  ofBytes : List UInt8 → B

/-- A block device. -/
class BlockDevice (D : Type) (B : outParam Type) where
  /-- The size in blocks -/
  size : D → ℕ
  /-- Read a block from the device -/
  readBlock : LBA → Prog D DeviceError B
  /-- Write a block to the device -/
  writeBlock : LBA → B → Prog D DeviceError Unit
  /-- Read multiple blocks from the device into a buffer of the given length -/
  readBlocks : List BlockGroup → ℕ → Prog D DeviceError (List UInt8)
  /-- Write multiple blocks to the device -/
  writeBlocks : List BlockGroup → List UInt8 → Prog D DeviceError Unit
  /-- Writes data to the block starting at an offset -/
  writePartialBlock : LBA → List UInt8 → ℕ → Prog D DeviceError Unit
  /-- Atomically compare and exchange a block on the device: `none` if it was exchanged, and
  otherwise the block the device holds -/
  compareExchangeBlock : LBA → B → B → Prog D DeviceError (Option B)

/-- A device on which every operation succeeds. -/
structure Disk (B : Type) where
  size : ℕ
  blocks : LBA → B
  /-- the block writes so far, oldest first -/
  writes : List (LBA × B)

namespace Disk
variable {B : Type} {d : Disk B} {x : LBA} {ws : List (LBA × B)}

/-- One block write. -/
def write (d : Disk B) (lba : LBA) (b : B) : Disk B :=
  { d with blocks := Function.update d.blocks lba b, writes := d.writes ++ [(lba, b)] }

@[simp] theorem write_blocks_self (d : Disk B) (lba : LBA) (b : B) : (d.write lba b).blocks lba = b := by simp [write]

theorem write_blocks_of_ne (d : Disk B) {lba : LBA} (b : B) (h : x ≠ lba) :
    (d.write lba b).blocks x = d.blocks x := by simp [write, h]

@[simp] theorem write_writes (d : Disk B) (lba : LBA) (b : B) : (d.write lba b).writes = d.writes ++ [(lba, b)] := rfl

/-- A list of block writes. -/
def writeAll (d : Disk B) (ws : List (LBA × B)) : Disk B := ws.foldl (fun d w => d.write w.1 w.2) d

@[simp] theorem writeAll_cons (d : Disk B) (w : LBA × B) (ws : List (LBA × B)) :
    d.writeAll (w :: ws) = (d.write w.1 w.2).writeAll ws := rfl

@[simp] theorem writeAll_writes (d : Disk B) (ws : List (LBA × B)) : (d.writeAll ws).writes = d.writes ++ ws := by
  induction ws generalizing d with
  | nil => exact (append_nil _).symm
  | cons w ws ih => rw [writeAll_cons, ih, write_writes, append_assoc, singleton_append]

/-- A block no write touches keeps its content. -/
theorem writeAll_blocks_of_notMem
    (h : ∀ w ∈ ws, w.1 ≠ x) : (d.writeAll ws).blocks x = d.blocks x := by
  induction ws generalizing d with
  | nil => rfl
  | cons w ws ih =>
    rw [writeAll_cons, ih fun v hv => h v (mem_cons_of_mem _ hv)]
    exact write_blocks_of_ne d w.2 (h w mem_cons_self).symm

/-- A block that is written once has what was written. -/
theorem writeAll_blocks_of_mem (hnd : (ws.map Prod.fst).Nodup)
    {w : LBA × B} (hw : w ∈ ws) : (d.writeAll ws).blocks w.1 = w.2 := by
  induction ws generalizing d with
  | nil => exact absurd hw not_mem_nil
  | cons v ws ih =>
    obtain ⟨hnot, hnd⟩ := nodup_cons.1 hnd
    rw [writeAll_cons]
    rcases mem_cons.1 hw with rfl | hw
    · rw [writeAll_blocks_of_notMem fun u hu heq => hnot (mem_map.2 ⟨u, hu, heq⟩), write_blocks_self]
    · exact ih hnd hw

section Bytes
variable [BlockBytes B] [DecidableEq B]

/-- The blocks of a group in order, as far as they are addresses. -/
def groupLbas (g : BlockGroup) : List LBA := (List.range g.count).filterMap fun i => LBA.new (g.start.get + i)

/-- The blocks of a list of groups, in order. -/
def lbas (gs : List BlockGroup) : List LBA := gs.flatMap groupLbas

/-- Write `data` over the blocks `ls`, one block of bytes each. -/
def fill (d : Disk B) : List LBA → List UInt8 → Disk B
  | [], _ => d
  | l :: ls, data =>
    fill (d.write l (BlockBytes.ofBytes (data.take BLOCK_SIZE))) ls (data.drop BLOCK_SIZE)

instance : BlockDevice (Disk B) B where
  size := Disk.size
  readBlock lba := fun d => .ok (d.blocks lba) d
  writeBlock lba b := fun d => .ok () (d.write lba b)
  readBlocks gs len := fun d =>
    if (lbas gs).length * BLOCK_SIZE ≤ len then
      let bytes := (lbas gs).flatMap fun l => BlockBytes.toBytes (d.blocks l)
      .ok (bytes ++ List.replicate (len - bytes.length) 0) d
    else .fault .panic
  writeBlocks gs data := fun d =>
    if data.length % BLOCK_SIZE = 0 ∧ (lbas gs).length * BLOCK_SIZE ≤ data.length then
      .ok () (d.fill (lbas gs) data)
    else .fault .panic
  writePartialBlock lba data offset := fun d =>
    if data.length + offset ≤ BLOCK_SIZE then
      let old := BlockBytes.toBytes (d.blocks lba)
      .ok () (d.write lba (BlockBytes.ofBytes (old.take offset ++ data ++ old.drop (offset + data.length))))
    else .fault .panic
  compareExchangeBlock lba current new := fun d =>
    if d.blocks lba = current then .ok none (d.write lba new) else .ok (some (d.blocks lba)) d
end Bytes
end Disk

/-- A disk whose operations may fail, and then do nothing: `fails n` tells whether the `n`-th does. -/
structure FlakyDisk (B : Type) where
  disk : Disk B
  fails : ℕ → Bool
  /-- the operations so far -/
  count : ℕ

namespace FlakyDisk
variable {B : Type}

/-- One operation. -/
def attempt {α : Type} (m : Prog (Disk B) DeviceError α) : Prog (FlakyDisk B) DeviceError α := fun d =>
  if d.fails d.count then .err .device { d with count := d.count + 1 }
  else zoom FlakyDisk.disk (fun k d => { d with disk := k, count := d.count + 1 }) m d

/-- An operation that fails does nothing. -/
theorem meets_attempt {α : Type} {m : Prog (Disk B) DeviceError α} {d : FlakyDisk B}
    {Q : α → FlakyDisk B → Prop} {E : DeviceError → FlakyDisk B → Prop} {F : Prop}
    (hfails : E .device { d with count := d.count + 1 })
    (h : m.meets (fun a k => Q a { d with disk := k, count := d.count + 1 })
      (fun e k => E e { d with disk := k, count := d.count + 1 }) F d.disk) :
    (attempt m).meets Q E F d := by
  unfold Prog.meets attempt
  split
  · exact hfails
  · exact meets_zoom.2 h

instance [BlockBytes B] [DecidableEq B] : BlockDevice (FlakyDisk B) B where
  size d := d.disk.size
  readBlock lba := attempt (BlockDevice.readBlock lba)
  writeBlock lba b := attempt (BlockDevice.writeBlock lba b)
  readBlocks gs len := attempt (BlockDevice.readBlocks gs len)
  writeBlocks gs data := attempt (BlockDevice.writeBlocks gs data)
  writePartialBlock lba data offset := attempt (BlockDevice.writePartialBlock lba data offset)
  compareExchangeBlock lba current new := attempt (BlockDevice.compareExchangeBlock lba current new)
end FlakyDisk

/-! ## What a device holds -/

/-- A device whose state tells what its blocks hold: reads and writes go to the block they name or
fail, and a write that fails may have damaged that block. -/
class BlockContents (D : Type) (B : outParam Type) [BlockDevice D B] where
  blocks : D → LBA → B
  readBlock_meets (lba : LBA) (d : D) : (BlockDevice.readBlock lba : Prog D DeviceError B).meets
    (fun b d' => b = blocks d lba ∧ blocks d' = blocks d) (fun _ d' => blocks d' = blocks d) False d
  writeBlock_meets (lba : LBA) (b : B) (d : D) : (BlockDevice.writeBlock lba b : Prog D DeviceError Unit).meets
      (fun _ d' => blocks d' = Function.update (blocks d) lba b)
      (fun _ d' => ∀ x, x ≠ lba → blocks d' x = blocks d x) False d

section Contents
variable {B : Type} [BlockBytes B] [DecidableEq B]

instance : BlockContents (Disk B) B where
  blocks := Disk.blocks
  readBlock_meets _ _ := ⟨rfl, rfl⟩
  writeBlock_meets _ _ _ := rfl

instance : BlockContents (FlakyDisk B) B where
  blocks d := d.disk.blocks
  readBlock_meets lba d := FlakyDisk.meets_attempt rfl
    (meets_mono (BlockContents.readBlock_meets lba d.disk) (fun _ _ h => h) (fun _ _ h => h) id)
  writeBlock_meets lba b d := FlakyDisk.meets_attempt (fun _ _ => rfl)
    (meets_mono (BlockContents.writeBlock_meets lba b d.disk) (fun _ _ h => h) (fun _ _ h => h) id)
end Contents
end WasabiOS
