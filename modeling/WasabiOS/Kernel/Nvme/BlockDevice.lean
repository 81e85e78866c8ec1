import WasabiOS.BlockDevice.Structs
import WasabiOS.Kernel.Nvme.Prp

/-!
# Kernel/Nvme/BlockDevice — reading blocks

Block addresses and counts of the device are converted to those of the controller, which has smaller
blocks: addresses are moved by the start of the device, and both are shifted.  The groups are read in
batches: one command each, until the submission queue is full or the groups are at an end, and then their
completions are waited for in order.

The groups are an iterator: each is converted when it is its turn.  `freedEarly` and the tags are ghost
state.
-/

open Machinery Prog
namespace WasabiOS
namespace Nvme

/-- `u64::checked_shl`: none only if the shift is too large; bits that are shifted out are lost -/
def checkedShl (x shift : ℕ) : Option ℕ := if shift < 64 then some (x * 2 ^ shift % u64Size) else none

/-- `u64::checked_add` -/
def checkedAdd (x y : ℕ) : Option ℕ := if x + y < u64Size then some (x + y) else none

structure ControllerCapabilities where
  lbaBlockSize : ℕ
  memoryPageSize : ℕ
  deriving DecidableEq, Repr

inductive NvmeBlockError where
  | controller (e : NVMEControllerError)
  | poll (e : PollCompletionError)
  | commandCompletionStatus (status : CommandStatusCode)
  | mem (e : MemError)
  deriving DecidableEq, Repr

/-- NVME `BlockDevice` -/
structure NvmeBlockDevice where
  /-- the first block that can be written to, in block-device space -/
  startLba : LBA
  /-- the number of blocks that can be accessed from this device, in block-device space -/
  blockCount : ℕ
  controllerCap : ControllerCapabilities
  lbaCountConversionShift : ℕ
  deriving DecidableEq, Repr

namespace NvmeBlockDevice

/-- An address of the device, for the controller. -/
def mapLba (input : LBA) (dev : NvmeBlockDevice) : Checked LBA :=
  match ((checkedAdd input.get dev.startLba.get).bind fun addr =>
    checkedShl addr dev.lbaCountConversionShift).bind LBA.new with
  | some lba => .ok lba
  | none => .error .panic

/-- A number of blocks of the device, for the controller. -/
def mapBlockCount (count : ℕ) (dev : NvmeBlockDevice) : Checked ℕ :=
  match checkedShl count dev.lbaCountConversionShift with
  | some count => .ok count
  | none => .error .panic

/-- `assert!` -/
def check (b : Bool) : Checked Unit := if b then .ok () else .error .panic

def newWithOffset (blockSize blockCount : ℕ) (firstLba : LBA) (controllerCap : ControllerCapabilities) :
    Checked NvmeBlockDevice := do
  check (512 ∣ blockSize)
  check (controllerCap.lbaBlockSize ∣ blockSize)
  check (controllerCap.lbaBlockSize ≤ blockSize)
  check (((checkedAdd blockCount firstLba.get).bind LBA.new) ≠ none)
  check (controllerCap.memoryPageSize = PAGE_SIZE)
  check (controllerCap.lbaBlockSize ≠ 0)
  let lbaConversionQuotient := blockSize / controllerCap.lbaBlockSize
  check (lbaConversionQuotient ≠ 0)
  let lbaConversionShift := lbaConversionQuotient.log2
  check (controllerCap.lbaBlockSize * 2 ^ lbaConversionShift % u64Size = blockSize)
  let this : NvmeBlockDevice := ⟨firstLba, blockCount, controllerCap, lbaConversionShift⟩
  let start ← this.mapLba this.startLba
  let count ← this.mapBlockCount this.blockCount
  check ((checkedAdd start.get count).bind LBA.new ≠ none)
  return this

/-- A group of the device, for the controller. -/
def mapGroup (dev : NvmeBlockDevice) (group : BlockGroup) : Checked BlockGroup := do
  let start ← dev.mapLba group.start
  BlockGroup.withCount start (← dev.mapBlockCount group.count)

variable {blockSize blockCount : ℕ} {firstLba : LBA} {cap : ControllerCapabilities} {dev : NvmeBlockDevice}

theorem check_eq_ok {b : Bool} {u : Unit} : check b = .ok u ↔ b := by
  cases b with
  | false => exact iff_of_false nofun nofun
  | true => exact iff_of_true rfl rfl

theorem newWithOffset_eq_ok (h : newWithOffset blockSize blockCount firstLba cap = .ok dev) :
    dev.startLba = firstLba ∧ cap.lbaBlockSize * 2 ^ dev.lbaCountConversionShift = blockSize := by
  simp only [newWithOffset, bind_eq_ok, check_eq_ok, decide_eq_true_eq] at h
  obtain ⟨-, -, -, -, -, hle, -, -, -, -, -, hpos, -, -, -, hprod, -, -, -, -, -, -, hret⟩ := h
  cases hret
  have hquotient := Nat.log2_self_le (Nat.div_pos hle (Nat.pos_of_ne_zero hpos)).ne'
  refine ⟨rfl, le_antisymm ?_ (hprod.symm.le.trans (Nat.mod_le _ _))⟩
  exact (Nat.mul_le_mul_left _ hquotient).trans (Nat.mul_div_le _ _)

theorem checkedShl_eq {x shift : ℕ} (hshift : shift < 64) (h : x * 2 ^ shift < u64Size) :
    checkedShl x shift = some (x * 2 ^ shift) := by rw [checkedShl, if_pos hshift, Nat.mod_eq_of_lt h]

/-- **Groups keep their bytes**: a group of the device is mapped to the blocks of the controller that hold the same
bytes, if the address past the device fits in a `u64` there. -/
theorem mapGroup_bytes {group : BlockGroup} (hdev : newWithOffset blockSize blockCount firstLba cap = .ok dev)
    (hfit : (firstLba.get + blockCount) * 2 ^ dev.lbaCountConversionShift < u64Size) (hgroup : group.past ≤ blockCount) :
    ∃ g, dev.mapGroup group = .ok g ∧ g.start.get * cap.lbaBlockSize = (firstLba.get + group.start.get) * blockSize ∧
      g.count * cap.lbaBlockSize = group.count * blockSize := by
  obtain ⟨rfl, rfl⟩ := newWithOffset_eq_ok hdev
  have hpos := Nat.two_pow_pos dev.lbaCountConversionShift
  have hcount := Nat.le_mul_of_pos_left (2 ^ dev.lbaCountConversionShift) group.count_pos
  have hstart := Nat.le_mul_of_pos_right (dev.startLba.get + group.start.get) hpos
  have hend := (Nat.mul_le_mul_right (2 ^ dev.lbaCountConversionShift) (Nat.add_le_add_left hgroup _)).trans_lt hfit
  rw [BlockGroup.past, ← Nat.add_assoc, Nat.add_mul] at hend
  have hshift : 2 ^ dev.lbaCountConversionShift < 2 ^ 64 := (by omega : _ < u64Size)
  rw [Nat.pow_lt_pow_iff_right (by decide)] at hshift
  refine ⟨⟨⟨_, (by omega : (dev.startLba.get + group.start.get) * 2 ^ dev.lbaCountConversionShift < _)⟩,
    group.count * 2 ^ dev.lbaCountConversionShift, by omega, by omega⟩, ?_, ?_, ?_⟩
  · rw [mapGroup, mapLba, checkedAdd, Nat.add_comm, if_pos (by omega), Option.bind_some,
      checkedShl_eq hshift (by omega), Option.bind_some, LBA.new, dif_pos (by omega)]
    rw [ok_bind, mapBlockCount, checkedShl_eq hshift (by omega)]
    exact dif_pos ⟨by omega, by omega⟩
  · rw [Nat.mul_comm cap.lbaBlockSize, Nat.mul_assoc]
  · rw [Nat.mul_comm cap.lbaBlockSize, Nat.mul_assoc]

theorem mapGroup_bytes_half : ∃ g, mapGroup ⟨LBA.ONE, 9, ⟨512, 4096⟩, 1⟩ (.single LBA.ONE) = .ok g ∧
    g.start.get * 512 = (1 + 1) * 1024 ∧ g.count * 512 = 1 * 1024 := by
  have hdev : newWithOffset 1024 9 LBA.ONE ⟨512, 4096⟩ = .ok ⟨LBA.ONE, 9, ⟨512, 4096⟩, 1⟩ := rfl
  exact mapGroup_bytes hdev (by decide) (by decide)
end NvmeBlockDevice

/-- `CommandOpcode::Read` -/
def CommandOpcode.Read : ℕ := 0x2

/-- Create the data structure for a read command -/
def createReadCommand (prp : Prp) (slba : LBA) (blockCount : ℕ) : Checked CommonCommand :=
  -- the block count is a 0 based value
  if 0 < blockCount then .ok {
    dword0 := ⟨CommandOpcode.Read, .prp, 0⟩
    namespaceIdent := 1
    dataPtr := ⟨prp.entry1, prp.entry2⟩
    dword10 := slba.get % 2 ^ 32
    dword11 := slba.get / 2 ^ 32
    dword12 := blockCount - 1
    tag := 0 }
  else .error .panic

/-! ## Reading -/

/-- A command that was submitted, and its prp. -/
structure ReadIdent where
  ident : ℕ
  prp : Prp
  /-- ghost: the number of the submission -/
  tag : ℕ

/-- The queue and the allocator of a device, and the commands of the batch. -/
structure Io where
  ioQueue : State
  prpPageAllocator : MappingsAllocator
  readIdents : List ReadIdent
  /-- ghost: a page was freed before the command that uses it had completed -/
  freedEarly : Bool

namespace Io

def setQueue (q : State) (io : Io) : Io := { io with ioQueue := q }

def setAllocator (a : MappingsAllocator) (io : Io) : Io := { io with prpPageAllocator := a }

def setIdents (idents : List ReadIdent) (io : Io) : Io := { io with readIdents := idents }

/-- The command has not completed and has pages. -/
def usesPages (io : Io) (i : ReadIdent) : Bool :=
  !i.prp.mappings.isEmpty && decide (i.tag ∉ io.ioQueue.device.posted.map CommonCompletionEntry.tag)

/-- Free the pages of the commands of the batch. -/
def freePrp (io : Io) : Io where
  ioQueue := io.ioQueue
  prpPageAllocator :=
    (io.readIdents.flatMap fun i => i.prp.mappings).foldl MappingsAllocator.free io.prpPageAllocator
  readIdents := []
  freedEarly := io.freedEarly || io.readIdents.any io.usesPages
end Io

variable {ε α : Type} (ctrl : Controller) (fuel : ℕ) (translatePage : ℕ → Option ℕ) (dev : NvmeBlockDevice)

/-- A program of the queue. -/
def onIoQueue : Prog State ε α → Prog Io ε α := zoom Io.ioQueue Io.setQueue

/-- Wait for the commands, in order. -/
def waitForAll : List ReadIdent → Prog Io NvmeBlockError Unit
  | [] => return ()
  | i :: idents => do
    match ← onIoQueue (mapErr .poll (waitFor ctrl fuel i.ident)) with
    | none => crash .diverge
    | some entry =>
      if entry.status.isErr then Prog.throw (.commandCompletionStatus entry.status)
      else waitForAll idents

def flushIoQueue : Prog Io NvmeBlockError Unit := do
  onIoQueue (flush ctrl)
  let io ← Prog.get
  waitForAll ctrl fuel io.readIdents
  Prog.modify Io.freePrp

/-- The command that reads a group into the front of a buffer. -/
def readCommand (block : Checked BlockGroup) (remaining : Buffer) :
    Prog MappingsAllocator MemError (CommonCommand × Prp × Buffer) := do
  let group ← lift block
  let bytes ← lift (group.bytes dev.controllerCap.lbaBlockSize)
  assert (bytes ≤ remaining.len)
  let prp ← createPrpFormBuffer translatePage ⟨remaining.addr, bytes⟩
  -- `try_into::<u16>`
  assert (group.count < 2 ^ 16)
  let command ← lift (createReadCommand prp group.start group.count)
  return (command, prp, ⟨remaining.addr + bytes, remaining.len - bytes⟩)

/-- Submit a command of the batch. -/
def submitRead (command : CommonCommand) (prp : Prp) : Prog Io NvmeBlockError Unit := do
  let io ← Prog.get
  let ident ← onIoQueue (mapErr .controller (submit ctrl command))
  -- `StaticVec<_, 64>::push`
  assert (io.readIdents.length < 64)
  Prog.modify (Io.setIdents (io.readIdents ++ [⟨ident, prp, io.ioQueue.history.submitted⟩]))

/-- Flush if the batch is full. -/
def flushIfFull : Prog Io NvmeBlockError Unit := do
  let io ← Prog.get
  if io.readIdents.length = 64 then flushIoQueue ctrl fuel
  else if ← lift io.ioQueue.queue.isFullForSubmission then flushIoQueue ctrl fuel
  else return ()

/-- The loop of `readBlocksInternal`. -/
def readLoop : List (Checked BlockGroup) → Buffer → Prog Io NvmeBlockError Unit
  | [], _ => return ()
  | block :: blocks, remaining => do
    let (command, prp, rest) ←
      zoom Io.prpPageAllocator Io.setAllocator (mapErr .mem (readCommand translatePage dev block remaining))
    submitRead ctrl command prp
    flushIfFull ctrl fuel
    readLoop blocks rest

def readBlocksInternal (blocks : List (Checked BlockGroup)) (buffer : Buffer) : Prog Io NvmeBlockError Unit := do
  Prog.modify (Io.setIdents [])
  let innerResult ← attempt (do
    readLoop ctrl fuel translatePage dev blocks buffer
    flushIoQueue ctrl fuel)
  Prog.modify Io.freePrp
  ofExcept innerResult

def readBlocks (blocks : List BlockGroup) (buffer : Buffer) : Prog Io NvmeBlockError Unit :=
  readBlocksInternal ctrl fuel translatePage dev (blocks.map dev.mapGroup) buffer
end Nvme
end WasabiOS
