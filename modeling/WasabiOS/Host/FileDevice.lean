import WasabiOS.BlockDevice.Device
import WasabiOS.Machinery.Slice

/-!
# Host/FileDevice — a block device in a file of the host

The builder and the tools on the host keep a file system in a file.  Blocks are read and written at their
position in the file; `read_blocks` and `write_blocks` go through a list of groups with a running offset into the
buffer.  Reads and writes of the host transfer the whole slice they are asked for, as far as the file goes.

`read_blocks` asks for a buffer that is larger than what it reads, and a multiple of the block size, where its
interface promises that one of exactly that size is enough: `accesses_iff`.
-/

open Machinery Prog
namespace WasabiOS
open BlockGroup Nat

/-- `std::io::Error` -/
inductive FileDeviceError where
  | unexpectedEOF
  | incompleteWrite
  /-- an error of the host itself, e.g. a file that would get too large -/
  | host
  deriving DecidableEq, Repr

/-- A block device in a file, which has all its blocks. -/
structure FileDevice where
  maxBlockCount : ℕ
  file : List UInt8
  blocks_le : maxBlockCount * BLOCK_SIZE ≤ file.length
  length_lt : file.length < u64Size

namespace FileDevice

/-! ## The host -/

/-- The position of a block in the file, for `seek`. -/
def position (lba : LBA) : Checked ℕ :=
  if lba.get * BLOCK_SIZE < u64Size then .ok (lba.get * BLOCK_SIZE) else .error .panic

/-- `File::read` at a position, into a buffer of the given length: the bytes it fills. -/
def hostRead (pos len : ℕ) : Prog FileDevice FileDeviceError (List UInt8) := fun dev =>
  .ok (slice dev.file pos len) dev

/-- The device after its file was written. -/
def put (dev : FileDevice) (pos : ℕ) (data : List UInt8) (h : pos + data.length < u64Size) : FileDevice where
  maxBlockCount := dev.maxBlockCount
  file := overwrite 0 dev.file pos data
  blocks_le := dev.blocks_le.trans (length_overwrite ▸ le_max_left _ _)
  length_lt := length_overwrite ▸ max_lt dev.length_lt h

/-- `File::write` at a position: the number of bytes it has written. -/
def hostWrite (pos : ℕ) (data : List UInt8) : Prog FileDevice FileDeviceError ℕ := fun dev =>
  if h : pos + data.length < u64Size then .ok data.length (dev.put pos data h) else .err .host dev

/-! ## Reading and writing blocks -/

def readContigInternal (start : LBA) (len : ℕ) : Prog FileDevice FileDeviceError (List UInt8) := do
  let pos ← lift (position start)
  let bytes ← hostRead pos len
  if bytes.length ≠ len then Prog.throw .unexpectedEOF else return bytes

/-- `a + b` of two `usize` -/
def usizeAdd (a b : ℕ) : Checked ℕ := if a + b < u64Size then .ok (a + b) else .error .panic

/-- The sum of the sizes of the groups. -/
def totalBytes : List BlockGroup → Checked ℕ
  | [] => return 0
  | group :: groups => do usizeAdd (← group.bytes BLOCK_SIZE) (← totalBytes groups)

/-- The loop of `readBlocks`: the buffer it fills, and where the cursor ends. -/
def readGroups : List BlockGroup → (cursor : ℕ) → (buffer : List UInt8) →
    Prog FileDevice FileDeviceError (ℕ × List UInt8)
  | [], cursor, buffer => return (cursor, buffer)
  | group :: groups, cursor, buffer => do
    let bytes ← lift (group.bytes BLOCK_SIZE)
    let endCursor ← lift (usizeAdd cursor bytes)
    -- `&mut buffer[cursor..end_cursor]`
    assert (endCursor ≤ buffer.length)
    let data ← readContigInternal group.start bytes
    readGroups groups endCursor (overwrite 0 buffer cursor data)

def readBlocks (blocks : List BlockGroup) (buffer : List UInt8) : Prog FileDevice FileDeviceError (List UInt8) := do
  let totalBytesToRead ← lift (totalBytes blocks)
  assert (totalBytesToRead < buffer.length)
  assert (buffer.length % BLOCK_SIZE = 0)
  let (cursor, buffer) ← readGroups blocks 0 buffer
  assert (cursor = totalBytesToRead)
  return buffer

def writeBlocksContig (start : LBA) (data : List UInt8) : Prog FileDevice FileDeviceError Unit := do
  assert (data.length % BLOCK_SIZE = 0)
  let pos ← lift (position start)
  let written ← hostWrite pos data
  if written ≠ data.length then Prog.throw .incompleteWrite else return ()

/-- The loop of `writeBlocks`. -/
def writeGroups : List BlockGroup → List UInt8 → Prog FileDevice FileDeviceError Unit
  | [], _ => return ()
  | group :: groups, data => do
    let bytes ← lift (group.bytes BLOCK_SIZE)
    -- `split_off(..bytes)`
    assert (bytes ≤ data.length)
    writeBlocksContig group.start (data.take bytes)
    writeGroups groups (data.drop bytes)

def writeBlocks (blocks : List BlockGroup) (data : List UInt8) : Prog FileDevice FileDeviceError Unit := do
  assert (data.length % BLOCK_SIZE = 0)
  writeGroups blocks data

/-! ## What is read -/

/-- The content of a block. -/
def block (dev : FileDevice) (b : ℕ) : List UInt8 := slice dev.file (b * BLOCK_SIZE) BLOCK_SIZE

/-- The contents of the blocks of the groups, in order. -/
def contents (dev : FileDevice) (gs : List BlockGroup) : List UInt8 := (blocksOf gs).flatMap dev.block

/-- The groups lie in the device. -/
def Inside (dev : FileDevice) (gs : List BlockGroup) : Prop := ∀ g ∈ gs, g.past ≤ dev.maxBlockCount

variable {dev dev' : FileDevice} {g : BlockGroup} {gs : List BlockGroup} {buffer data : List UInt8} {cursor : ℕ}

/-- A run of blocks is a slice of the file. -/
theorem flatMap_block (dev : FileDevice) (start n : ℕ) :
    (List.range' start n).flatMap dev.block = slice dev.file (start * BLOCK_SIZE) (n * BLOCK_SIZE) := by
  induction n generalizing start with
  | zero => rw [zero_mul, slice, List.take_zero, List.range'_zero, List.flatMap_nil]
  | succ n ih =>
    rw [List.range'_succ, List.flatMap_cons, ih, succ_mul n, add_comm (n * _), slice_add, succ_mul]
    rfl

theorem contents_cons : dev.contents (g :: gs) =
    slice dev.file (g.start.get * BLOCK_SIZE) g.size ++ dev.contents gs := by
  rw [contents, blocksOf_cons, List.flatMap_append, addresses, flatMap_block]
  rfl

section
variable (h : g.past ≤ dev.maxBlockCount)
include h

/-- A group of the device is in the file. -/
theorem end_le_length : g.start.get * BLOCK_SIZE + g.size ≤ dev.file.length := by
  rw [BlockGroup.size, ← add_mul]
  exact (mul_le_mul_right _ h).trans dev.blocks_le

theorem position_eq : position g.start = .ok (g.start.get * BLOCK_SIZE) :=
  if_pos (lt_of_le_of_lt (le_trans (le_add_right _ _) (end_le_length h)) dev.length_lt)

theorem bytes_eq : g.bytes BLOCK_SIZE = .ok g.size :=
  bytes_of_lt (lt_of_le_of_lt (le_trans (le_add_left _ _) (end_le_length h)) dev.length_lt)
end

theorem totalBytes_eq (h : totalSize gs < u64Size) : totalBytes gs = .ok (totalSize gs) := by
  induction gs with
  | nil => rfl
  | cons g gs ih =>
    rw [totalSize_cons] at h ⊢
    have hg : g.size < u64Size := by omega
    rw [totalBytes, ih (by omega), bytes_of_lt hg, ok_bind, ok_bind]
    exact if_pos h

theorem readContigInternal_eq (h : g.past ≤ dev.maxBlockCount) : readContigInternal g.start g.size dev =
    .ok (slice dev.file (g.start.get * BLOCK_SIZE) g.size) dev := by
  have hlen := length_slice (end_le_length h)
  rw [readContigInternal, position_eq h, lift_ok, pure_bind, bind_apply, hostRead, andThen_ok,
    if_neg (not_not.2 hlen)]
  rfl

/-- **The loop fills the buffer** from the cursor on. -/
theorem readGroups_eq (hin : dev.Inside gs) (hbuffer : buffer.length < u64Size)
    (hfit : cursor + totalSize gs ≤ buffer.length) :
    readGroups gs cursor buffer dev = .ok (cursor + totalSize gs,
      buffer.take cursor ++ dev.contents gs ++ buffer.drop (cursor + totalSize gs)) dev := by
  induction gs generalizing cursor buffer with
  | nil =>
    rw [contents, blocksOf, List.flatMap_nil, List.flatMap_nil, List.append_nil, totalSize_nil,
      add_zero, List.take_append_drop]
    rfl
  | cons g gs ih =>
    obtain ⟨hg, hgs⟩ := List.forall_mem_cons.1 hin
    rw [totalSize_cons] at hfit ⊢
    obtain ⟨read, hread⟩ : ∃ read, read = slice dev.file (g.start.get * BLOCK_SIZE) g.size := ⟨_, rfl⟩
    have hlen : read.length = g.size := hread ▸ length_slice (end_le_length hg)
    have hcursor : cursor ≤ buffer.length := by omega
    have hadd : usizeAdd cursor g.size = .ok (cursor + g.size) := if_pos (by omega)
    have hfilled : overwrite 0 buffer cursor read = buffer.take cursor ++ read ++ buffer.drop (cursor + g.size) := by
      rw [overwrite_of_le hcursor, hlen]
    have hfront : (buffer.take cursor ++ read).length = cursor + g.size := by
      rw [List.length_append, List.length_take, hlen, min_eq_left hcursor]
    have hlength : (overwrite 0 buffer cursor read).length = buffer.length := by
      rw [length_overwrite, hlen]
      omega
    have hrest : readGroups gs (cursor + g.size) (overwrite 0 buffer cursor read) dev = _ :=
      ih hgs (hlength.trans_lt hbuffer) (by omega)
    rw [readGroups, bytes_eq hg, lift_ok, pure_bind, hadd, lift_ok, pure_bind,
      decide_eq_true (show cursor + g.size ≤ buffer.length by omega), assert_true, pure_bind, bind_apply,
      readContigInternal_eq hg, andThen_ok, ← hread, hrest, hfilled, List.take_left' hfront,
      List.drop_append, List.drop_of_length_le (hfront.trans_le le_self_add), List.nil_append, hfront,
      Nat.add_sub_cancel_left, List.drop_drop, contents_cons, ← hread, add_assoc, List.append_assoc _ read]

/-- With room to spare, the buffer is filled. -/
theorem readBlocks_eq (hin : dev.Inside gs) (hbuffer : buffer.length < u64Size)
    (hlt : totalSize gs < buffer.length) (hmod : buffer.length % BLOCK_SIZE = 0) :
    readBlocks gs buffer dev = .ok (dev.contents gs ++ buffer.drop (totalSize gs)) dev := by
  have hgroups : readGroups gs 0 buffer dev = _ := readGroups_eq hin hbuffer (by omega)
  rw [zero_add, List.take_zero, List.nil_append] at hgroups
  rw [readBlocks, totalBytes_eq (hlt.trans hbuffer), lift_ok, pure_bind, decide_eq_true hlt, assert_true,
    pure_bind, decide_eq_true hmod, assert_true, pure_bind, bind_apply, hgroups, andThen_ok]
  simp only [decide_true, assert_true, pure_bind, pure_apply]

/-- Without, there is a panic. -/
theorem readBlocks_panic (hbuffer : totalSize gs < u64Size)
    (h : ¬ (totalSize gs < buffer.length ∧ buffer.length % BLOCK_SIZE = 0)) :
    readBlocks gs buffer dev = .fault .panic := by
  rw [readBlocks, totalBytes_eq hbuffer, lift_ok, pure_bind]
  by_cases hlt : totalSize gs < buffer.length
  · have hmod : ¬ buffer.length % BLOCK_SIZE = 0 := fun hmod => h ⟨hlt, hmod⟩
    rw [decide_eq_true hlt, assert_true, pure_bind, decide_eq_false hmod]
    rfl
  · rw [decide_eq_false hlt]
    rfl

/-! ## What is written -/

/-- The groups lie apart from a range of the file. -/
def Apart (gs : List BlockGroup) (pos n : ℕ) : Prop :=
  ∀ g ∈ gs, pos + n ≤ g.start.get * BLOCK_SIZE ∨ g.past * BLOCK_SIZE ≤ pos

/-- A group is apart from those it is disjoint with. -/
theorem apart_of_disjoint (h : ∀ x ∈ gs, Disjoint g.blocks x.blocks) : Apart gs (g.start.get * BLOCK_SIZE) g.size := by
  intro x hx
  have hdisjoint := h x hx
  rw [BlockGroup.size, ← add_mul]
  rcases lt_or_ge x.start.get g.past with hlt | hge
  · right
    refine mul_le_mul_right _ (not_lt.1 fun hlt' => ?_)
    -- otherwise the later of the two starts is in both
    have hg := g.start_lt_past
    have hx := x.start_lt_past
    refine Finset.disjoint_left.1 hdisjoint (mem_blocks.2 ⟨le_max_left _ x.start.get, max_lt hg hlt⟩) ?_
    exact mem_blocks.2 ⟨le_max_right _ _, max_lt hlt' hx⟩
  · exact .inl (mul_le_mul_right _ hge)

theorem writeBlocksContig_eq (hg : g.past ≤ dev.maxBlockCount) (hdata : data.length = g.size) :
    ∃ dev', writeBlocksContig g.start data dev = .ok () dev' ∧ dev'.maxBlockCount = dev.maxBlockCount ∧
      dev'.file = overwrite 0 dev.file (g.start.get * BLOCK_SIZE) data := by
  have hmod : data.length % BLOCK_SIZE = 0 := by rw [hdata, BlockGroup.size, mul_mod_left]
  have hend : g.start.get * BLOCK_SIZE + data.length < u64Size := by
    rw [hdata]
    exact lt_of_le_of_lt (end_le_length hg) dev.length_lt
  refine ⟨dev.put (g.start.get * BLOCK_SIZE) data hend, ?_, rfl, rfl⟩
  rw [writeBlocksContig, decide_eq_true hmod, assert_true, pure_bind, position_eq hg, lift_ok, pure_bind,
    bind_apply, hostWrite, dif_pos hend, andThen_ok, if_neg (not_not.2 rfl)]
  rfl

/-- **Writing disjoint groups**: each gets its part of the data, and the rest of the file is unchanged. -/
theorem writeGroups_spec (hin : dev.Inside gs) (hdata : data.length = totalSize gs) :
    ∃ dev', writeGroups gs data dev = .ok () dev' ∧ dev'.maxBlockCount = dev.maxBlockCount ∧
      (∀ {pos n : ℕ}, Apart gs pos n → slice dev'.file pos n = slice dev.file pos n) ∧
      (gs.Pairwise (fun g h => Disjoint g.blocks h.blocks) → dev'.contents gs = data) := by
  induction gs generalizing dev data with
  | nil =>
    refine ⟨dev, rfl, rfl, fun _ => rfl, fun _ => ?_⟩
    rw [List.length_eq_zero_iff.1 hdata]
    rfl
  | cons g gs ih =>
    obtain ⟨hg, hgs⟩ := List.forall_mem_cons.1 hin
    rw [totalSize_cons] at hdata
    have htake : (data.take g.size).length = g.size := by
      rw [List.length_take]
      omega
    obtain ⟨dev1, hwrite, hcount, hfile⟩ := writeBlocksContig_eq hg htake
    have hin1 : dev1.Inside gs := fun x hx => hcount ▸ hgs x hx
    have hdrop : (data.drop g.size).length = totalSize gs := by
      rw [List.length_drop]
      omega
    obtain ⟨dev', hrest, hcount', hframe, hcontents⟩ := ih hin1 hdrop
    refine ⟨dev', ?_, hcount'.trans hcount, fun {pos n} hapart => ?_, fun hpairwise => ?_⟩
    · rw [writeGroups, bytes_eq hg, lift_ok, pure_bind, decide_eq_true (show g.size ≤ data.length by omega),
        assert_true, pure_bind, bind_apply, hwrite, andThen_ok, hrest]
    · obtain ⟨hapart, haparts⟩ := List.forall_mem_cons.1 hapart
      rw [hframe haparts, hfile]
      refine slice_overwrite_of_disjoint (le_trans (le_add_right _ _) (end_le_length hg)) ?_
      rwa [htake, BlockGroup.size, ← add_mul]
    · obtain ⟨hdisjoint, hpairwise⟩ := List.pairwise_cons.1 hpairwise
      have hown : slice dev'.file (g.start.get * BLOCK_SIZE) g.size = data.take g.size := by
        rw [hframe (apart_of_disjoint hdisjoint), hfile]
        nth_rewrite 2 [← htake]
        exact slice_overwrite_self
      rw [contents_cons, hown, hcontents hpairwise, List.take_append_drop]

/-- **Block access**: a read fills the buffer with the blocks, and after a write of disjoint groups a read
returns what was written and every other block is what it was. -/
def Accesses (dev : FileDevice) (gs : List BlockGroup) (buffer : List UInt8) : Prop :=
  readBlocks gs buffer dev = .ok (dev.contents gs ++ buffer.drop (totalSize gs)) dev ∧
    (gs.Pairwise (fun g h => Disjoint g.blocks h.blocks) → ∀ data : List UInt8,
      data.length = totalSize gs → ∃ dev', writeBlocks gs data dev = .ok () dev' ∧
        readBlocks gs buffer dev' = .ok (data ++ buffer.drop (totalSize gs)) dev' ∧
        ∀ b, (∀ g ∈ gs, b ∉ g.blocks) → dev'.block b = dev.block b)

theorem totalSize_mod (gs : List BlockGroup) : totalSize gs % BLOCK_SIZE = 0 := by
  induction gs with
  | nil => rfl
  | cons g gs ih => rw [totalSize_cons, add_mod, ih, BlockGroup.size, mul_mod_left, zero_mod]

theorem apart_of_notMem {b : ℕ} (h : ∀ g ∈ gs, b ∉ g.blocks) : Apart gs (b * BLOCK_SIZE) BLOCK_SIZE := by
  intro g hg
  rw [← succ_mul]
  rcases lt_or_ge b g.start.get with hlt | hge
  · exact .inl (mul_le_mul_right _ hlt)
  · have hpast : ¬ b < g.past := fun hlt => h g hg (mem_blocks.2 ⟨hge, hlt⟩)
    exact .inr (mul_le_mul_right _ (not_lt.1 hpast))

/-- **Block access works exactly if the buffer is a multiple of the block size and larger than what is read.** -/
theorem accesses_iff (hin : dev.Inside gs) (hfit : totalSize gs ≤ buffer.length) (hbuffer : buffer.length < u64Size) :
    dev.Accesses gs buffer ↔ totalSize gs < buffer.length ∧ buffer.length % BLOCK_SIZE = 0 := by
  constructor
  · rintro ⟨hread, -⟩
    by_contra hno
    rw [readBlocks_panic (lt_of_le_of_lt hfit hbuffer) hno] at hread
    cases hread
  · rintro ⟨hlt, hmod⟩
    refine ⟨readBlocks_eq hin hbuffer hlt hmod, fun hpairwise data hdata => ?_⟩
    obtain ⟨dev', hwrite, hcount, hframe, hcontents⟩ := writeGroups_spec hin hdata
    have hin' : dev'.Inside gs := fun g hg => hcount ▸ hin g hg
    refine ⟨dev', ?_, ?_, fun b hb => hframe (apart_of_notMem hb)⟩
    · rw [writeBlocks, hdata, decide_eq_true (totalSize_mod gs), assert_true, pure_bind, hwrite]
    · rw [readBlocks_eq hin' hbuffer hlt hmod, hcontents hpairwise]

theorem oneBlock_le : 1 * BLOCK_SIZE ≤ (List.replicate BLOCK_SIZE (0 : UInt8)).length := by
  rw [List.length_replicate, one_mul]

theorem oneBlock_lt : (List.replicate BLOCK_SIZE (0 : UInt8)).length < u64Size := by
  rw [List.length_replicate]
  decide

/-- A device of one block. -/
def oneBlock : FileDevice := ⟨1, List.replicate BLOCK_SIZE 0, oneBlock_le, oneBlock_lt⟩

theorem inside_oneBlock : oneBlock.Inside [.single LBA.ZERO] := by
  intro g hg
  rw [List.mem_singleton.1 hg]
  exact le_rfl

theorem totalSize_single (lba : LBA) : totalSize [.single lba] = BLOCK_SIZE := by
  rw [totalSize_cons, totalSize_nil, BlockGroup.size, single_count, one_mul, add_zero]

/-- A buffer of one block is not enough to read the block. -/
theorem not_accesses_oneBlock : oneBlock.Inside [.single LBA.ZERO] ∧
    totalSize [.single LBA.ZERO] ≤ (List.replicate BLOCK_SIZE (0 : UInt8)).length ∧
      ¬ oneBlock.Accesses [.single LBA.ZERO] (List.replicate BLOCK_SIZE 0) := by
  refine ⟨inside_oneBlock, ?_, ?_⟩
  · rw [totalSize_single, List.length_replicate]
  · rintro ⟨hread, -⟩
    rw [readBlocks_panic (by rw [totalSize_single]; decide) fun h => ?_] at hread
    · cases hread
    · rw [totalSize_single, List.length_replicate] at h
      exact lt_irrefl _ h.1

/-- One of two blocks is. -/
theorem accesses_oneBlock : oneBlock.Accesses [.single LBA.ZERO] (List.replicate (2 * BLOCK_SIZE) 0) := by
  have hlen : (List.replicate (2 * BLOCK_SIZE) (0 : UInt8)).length = 2 * BLOCK_SIZE := List.length_replicate
  refine (accesses_iff inside_oneBlock ?_ ?_).2 ?_
  · rw [totalSize_single, hlen]
    decide
  · rw [hlen]
    decide
  · rw [totalSize_single, hlen]
    decide
end FileDevice
end WasabiOS
