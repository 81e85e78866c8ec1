import Mathlib.Order.Interval.Finset.Nat
import Mathlib.Algebra.Order.Ring.Nat
import WasabiOS.Machinery.Prog

/-!
# BlockDevice/Structs — block addresses and groups of contiguous blocks

`LBA` is a `u64` other than `u64::MAX`, and `BlockGroup` a start and a nonzero `u64` count.  Address
arithmetic is checked: overflow and the forbidden address are panics, in the source's order of
evaluation — `endLba` adds the whole count before it takes one off, so it panics on a group that
ends at the largest address.

`BlockGroup.blocks` reads a group as the interval of addresses it covers.
-/

open Machinery
namespace WasabiOS
variable {n : ℕ}

/-- The number of values of a `u64`. -/
abbrev u64Size : ℕ := 2 ^ 64

/-- Logical block address. -/
@[ext] structure LBA where
  get : ℕ
  get_lt : get < u64Size - 1
  deriving DecidableEq, Repr

namespace LBA
variable {a b : LBA}

theorem get_injective : Function.Injective LBA.get := fun _ _ h => LBA.ext h

instance : LinearOrder LBA := LinearOrder.lift' LBA.get get_injective

theorem le_def : a ≤ b ↔ a.get ≤ b.get := Iff.rfl

theorem lt_def : a < b ↔ a.get < b.get := Iff.rfl

/-- create a new LBA -/
def new (addr : ℕ) : Option LBA := if h : addr < u64Size - 1 then some ⟨addr, h⟩ else none

/-- The zero LBA. -/
def ZERO : LBA := ⟨0, by decide⟩

theorem one_lt : 1 < u64Size - 1 := by decide

/-- The one LBA. -/
def ONE : LBA := ⟨1, one_lt⟩

/-- the maximum value that is valid -/
def MAX : LBA := ⟨u64Size - 2, by decide⟩

/-- `LBA + u64`: the sum is neither past a `u64` nor `u64::MAX`. -/
def add (a : LBA) (rhs : ℕ) : Checked LBA :=
  if h : a.get + rhs < u64Size - 1 then .ok ⟨a.get + rhs, h⟩ else .error .panic

/-- `LBA - u64`. -/
def sub (a : LBA) (rhs : ℕ) : Checked LBA :=
  if rhs ≤ a.get then .ok ⟨a.get - rhs, lt_of_le_of_lt (Nat.sub_le _ _) a.get_lt⟩ else .error .panic

/-- `LBA - LBA`. -/
def dist (a b : LBA) : Checked ℕ := if b ≤ a then .ok (a.get - b.get) else .error .panic

theorem add_eq_ok : a.add n = .ok b ↔ b.get = a.get + n := by
  unfold add
  split
  case isTrue h => exact ⟨fun e => by cases e; rfl, fun e => congrArg Except.ok (LBA.ext e.symm)⟩
  case isFalse h => exact ⟨nofun, fun e => absurd b.get_lt (by omega)⟩

theorem sub_eq_ok : a.sub n = .ok b ↔ n ≤ a.get ∧ b.get = a.get - n := by
  unfold sub
  split
  case isTrue h => exact ⟨fun e => by cases e; exact ⟨h, rfl⟩, fun e => congrArg Except.ok (LBA.ext e.2.symm)⟩
  case isFalse h => exact ⟨nofun, fun e => absurd e.1 h⟩

/-- The number of block addresses.  A chain of pointers longer than that visits a block twice, so
following it never ends. -/
def addressCount : ℕ := u64Size - 1

/-- Distinct addresses are at most `addressCount`. -/
theorem length_le_addressCount {l : List LBA} (h : l.Nodup) : l.length ≤ addressCount := by
  have hsub : (l.map LBA.get).toFinset ⊆ Finset.range addressCount := by
    intro n hn
    obtain ⟨a, -, rfl⟩ := List.mem_map.1 (List.mem_toFinset.1 hn)
    exact Finset.mem_range.2 a.get_lt
  have hcard := List.toFinset_card_of_nodup (h.map get_injective)
  have hle := Finset.card_le_card hsub
  rw [hcard, List.length_map, Finset.card_range] at hle
  exact hle

theorem add_ok (h : a.get + n < u64Size - 1) : a.add n = .ok ⟨a.get + n, h⟩ := add_eq_ok.2 rfl
end LBA

/-- A group of contigous logical blocks. -/
@[ext] structure BlockGroup where
  /-- The fist block in the group -/
  start : LBA
  /-- The number of blocks in the group -/
  count : ℕ
  count_pos : 0 < count
  count_lt : count < u64Size
  deriving DecidableEq, Repr

namespace BlockGroup
variable {g : BlockGroup}

/-- create a new block group based on the block count -/
def withCount (start : LBA) (count : ℕ) : Checked BlockGroup :=
  if h : 0 < count ∧ count < u64Size then .ok ⟨start, count, h.1, h.2⟩ else .error .panic

/-- create a new block group from start and end(inclusive) -/
def new (start last : LBA) : Checked BlockGroup :=
  if start.get ≤ last.get + 1 then withCount start (last.get + 1 - start.get) else .error .panic

/-- create a block group with a single block -/
def single (block : LBA) : BlockGroup := ⟨block, 1, by decide, by decide⟩

@[simp] theorem single_start (b : LBA) : (single b).start = b := rfl

@[simp] theorem single_count (b : LBA) : (single b).count = 1 := rfl

/-- the address of the last block in the group -/
def endLba (g : BlockGroup) : Checked LBA := do (← g.start.add g.count).sub 1

/-- the number of bytes in the group based on the block size -/
def bytes (blockSize : ℕ) (g : BlockGroup) : Checked ℕ :=
  if g.count * blockSize < u64Size then .ok (g.count * blockSize) else .error .panic

/-- returns `true` if the address is within the group -/
def contains (g : BlockGroup) (lba : LBA) : Checked Bool :=
  if g.start ≤ lba then do return decide (lba ≤ (← g.endLba)) else return false

/-- greate a new group at a given offset (in blocks) -/
def subgroup (g : BlockGroup) (blockOffset : ℕ) : Checked (Option BlockGroup) :=
  if g.count > blockOffset then do
    return some (← new (← g.start.add blockOffset) (← g.endLba))
  else return none

/-- Create a new group with the last n blocks removed. -/
def removeEnd (g : BlockGroup) (blocksToRemove : ℕ) : Checked (Option BlockGroup) :=
  if g.count > blocksToRemove then do
    return some (← new g.start (← (← g.endLba).sub blocksToRemove))
  else return none

/-- Create a new group with the same start, but the new length. -/
def withNewLength (g : BlockGroup) (newLength : ℕ) : Checked (Option BlockGroup) :=
  if newLength ≤ g.count then g.removeEnd (g.count - newLength) else .error .panic

/-! ## A group as an interval -/

/-- The address one past the group, which need not be an `LBA`. -/
def past (g : BlockGroup) : ℕ := g.start.get + g.count

/-- The addresses of the group. -/
def blocks (g : BlockGroup) : Finset ℕ := Finset.Ico g.start.get g.past

/-- All addresses of the group are block addresses. -/
def Valid (g : BlockGroup) : Prop := g.past < u64Size

theorem mem_blocks {b : ℕ} : b ∈ g.blocks ↔ g.start.get ≤ b ∧ b < g.past := Finset.mem_Ico

theorem start_lt_past (g : BlockGroup) : g.start.get < g.past := Nat.lt_add_of_pos_right g.count_pos

theorem start_mem_blocks (g : BlockGroup) : g.start.get ∈ g.blocks := mem_blocks.2 ⟨le_refl _, g.start_lt_past⟩

@[simp] theorem card_blocks (g : BlockGroup) : g.blocks.card = g.count := by simp [blocks, past]

@[simp] theorem single_past (b : LBA) : (single b).past = b.get + 1 := rfl

@[simp] theorem single_blocks (b : LBA) : (single b).blocks = {b.get} := by
  ext x
  simp only [mem_blocks, single_start, single_past, Finset.mem_singleton]
  omega

theorem withCount_eq_ok {s : LBA} : withCount s n = .ok g ↔ g.start = s ∧ g.count = n := by
  unfold withCount
  split
  case isTrue h =>
    refine ⟨fun e => by cases e; exact ⟨rfl, rfl⟩, fun e => congrArg Except.ok ?_⟩
    exact BlockGroup.ext e.1.symm e.2.symm
  case isFalse h => exact ⟨nofun, fun e => absurd ⟨g.count_pos, g.count_lt⟩ (e.2 ▸ h)⟩

/-- **The end of a group**, where adding the whole count stays an address. -/
theorem endLba_eq_ok {e : LBA} : g.endLba = .ok e ↔ g.past < u64Size - 1 ∧ e.get + 1 = g.past := by
  have hpos := g.count_pos
  unfold endLba past
  cases ha : g.start.add g.count with
  | ok a =>
    have h := LBA.add_eq_ok.1 ha
    have hl := a.get_lt
    change a.sub 1 = .ok e ↔ _
    rw [LBA.sub_eq_ok]
    omega
  | error f =>
    have hno : ¬ g.start.get + g.count < u64Size - 1 := fun hlt => by
      rw [LBA.add_ok hlt] at ha
      cases ha
    exact ⟨nofun, fun h => absurd h.1 hno⟩
end BlockGroup
end WasabiOS
