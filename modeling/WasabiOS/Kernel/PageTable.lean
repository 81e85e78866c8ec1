import WasabiOS.Kernel.Paging

/-!
# Kernel/PageTable — four-level page tables with a recursive entry

Any frame of memory can be read as a table of 512 entries; which frames *are* tables is a matter of
the entries that lead to them (`IsTable`).  `translate` is the walk of the hardware: an entry of level 3
or 2 with the huge bit maps memory, and at level 1 the same bit selects a memory type.

A level 4 entry that points at the level 4 table makes every table readable as a page.
-/

open Machinery
namespace WasabiOS

/-- An index into a page table. -/
abbrev PageTableIndex := Fin 512

instance PageTableIndex.neZero : NeZero 512 := ⟨Nat.succ_ne_zero 511⟩

/-- The indices of a table, in the order of its entries. -/
@[irreducible] def PageTableIndex.all : List PageTableIndex := List.finRange 512

theorem PageTableIndex.mem_all (i : PageTableIndex) : i ∈ PageTableIndex.all := by
  unfold PageTableIndex.all
  exact List.mem_finRange i

/-- A 64-bit page table entry. -/
structure PageTableEntry where
  entry : UInt64
  deriving DecidableEq, Repr

namespace PageTableEntry

/-- `flags().contains(PageTableFlags::PRESENT)` -/
def isPresent (e : PageTableEntry) : Bool := e.entry &&& 1 != 0

/-- `flags().contains(PageTableFlags::HUGE_PAGE)` -/
def isHuge (e : PageTableEntry) : Bool := e.entry &&& 128 != 0

/-- The number of the frame the entry points at. -/
def frame (e : PageTableEntry) : ℕ := (e.entry &&& 0x000ffffffffff000).toNat / 4096
end PageTableEntry

/-- A page table. -/
abbrev PageTable := PageTableIndex → PageTableEntry

/-- Page tables in memory, with an entry of level 4 that points at the table itself.  Bit 7 of a level 4
entry is reserved. -/
structure RecursivePageTable where
  /-- what each frame holds, read as a page table -/
  memory : ℕ → PageTable
  /-- the frame of the level 4 table -/
  level4 : ℕ
  recursiveIndex : PageTableIndex
  present : (memory level4 recursiveIndex).isPresent = true
  recursive : (memory level4 recursiveIndex).frame = level4
  reserved : ∀ i, (memory level4 i).isHuge = false

/-- The indices of a page. -/
@[ext] structure PageIndices where
  l4 : PageTableIndex
  l3 : PageTableIndex
  l2 : PageTableIndex
  l1 : PageTableIndex
  deriving DecidableEq, Repr

namespace PageIndices

/-- The address the indices stand for, not extended to a canonical one:
`(l4 << 39) | (l3 << 30) | (l2 << 21) | (l1 << 12)` -/
def vaddr (p : PageIndices) : UInt64 :=
  (UInt64.ofNat p.l4 <<< 39) ||| (UInt64.ofNat p.l3 <<< 30) ||| (UInt64.ofNat p.l2 <<< 21)
    ||| (UInt64.ofNat p.l1 <<< 12)

/-- The number of the page. -/
def number (p : PageIndices) : ℕ := ((p.l4 * 512 + p.l3) * 512 + p.l2) * 512 + p.l1

/-- The page with a number. -/
def ofNumber (n : ℕ) : PageIndices :=
  ⟨Fin.ofNat 512 (n / 2 ^ 27), Fin.ofNat 512 (n / 2 ^ 18), Fin.ofNat 512 (n / 2 ^ 9), Fin.ofNat 512 n⟩

variable (p : PageIndices)

theorem number_lt : p.number < 2 ^ 36 := by
  unfold number
  omega

theorem ofNumber_number : ofNumber p.number = p := by
  unfold ofNumber number
  ext <;> simp only [Fin.ofNat] <;> omega

theorem number_ofNumber {n : ℕ} (h : n < 2 ^ 36) : (ofNumber n).number = n := by
  simp only [ofNumber, number, Fin.ofNat]
  omega

/-- The page an address is in. -/
def ofAddr (x : ℕ) : PageIndices := ofNumber (x / 4096)

theorem number_ofAddr {x : ℕ} (h : x < 2 ^ 48) : (ofAddr x).number = x / 4096 := number_ofNumber (by omega)

theorem ofAddr_eq_iff {x : ℕ} (h : x < 2 ^ 48) : ofAddr x = p ↔ x / 4096 = p.number := by
  constructor
  · rintro rfl
    exact (number_ofAddr h).symm
  · intro hx
    rw [ofAddr, hx, ofNumber_number]

/-- An index in its place. -/
theorem toNat_shift {i : PageTableIndex} {k : ℕ} (hk : k < 55) :
    (UInt64.ofNat i <<< UInt64.ofNat k).toNat = 2 ^ k * i := by
  have hi : (UInt64.ofNat i).toNat = i := UInt64.toNat_ofNat_of_lt' (by change i.val < 2 ^ 64; omega)
  have hk' : (UInt64.ofNat k).toNat = k := UInt64.toNat_ofNat_of_lt' (by change k < 2 ^ 64; omega)
  have hfit : i.val * 2 ^ k < 2 ^ 64 := by
    calc i.val * 2 ^ k < 2 ^ 9 * 2 ^ k := Nat.mul_lt_mul_of_pos_right i.isLt (Nat.two_pow_pos k)
      _ = 2 ^ (9 + k) := (pow_add 2 9 k).symm
      _ ≤ 2 ^ 64 := Nat.pow_le_pow_right (by decide) (by omega)
  rw [UInt64.toNat_shiftLeft, hi, hk', Nat.mod_eq_of_lt (by omega : k < 64), Nat.shiftLeft_eq,
    Nat.mod_eq_of_lt hfit, mul_comm]

theorem toNat_vaddr : p.vaddr.toNat = p.number * 4096 := by
  have h4 : (UInt64.ofNat p.l4 <<< 39).toNat = 2 ^ 39 * p.l4 := toNat_shift (by decide)
  have h3 : (UInt64.ofNat p.l3 <<< 30).toNat = 2 ^ 30 * p.l3 := toNat_shift (by decide)
  have h2 : (UInt64.ofNat p.l2 <<< 21).toNat = 2 ^ 21 * p.l2 := toNat_shift (by decide)
  have h1 : (UInt64.ofNat p.l1 <<< 12).toNat = 2 ^ 12 * p.l1 := toNat_shift (by decide)
  -- each index lies below the ones before it
  have h43 : 2 ^ 39 * p.l4.val ||| 2 ^ 30 * p.l3 = 2 ^ 30 * (512 * p.l4 + p.l3) := by
    rw [← Nat.two_pow_add_eq_or_of_lt (by omega)]
    omega
  have h432 : 2 ^ 30 * (512 * p.l4.val + p.l3) ||| 2 ^ 21 * p.l2 = 2 ^ 21 * (512 * (512 * p.l4 + p.l3) + p.l2) := by
    rw [← Nat.two_pow_add_eq_or_of_lt (by omega)]
    omega
  rw [vaddr, UInt64.toNat_or, UInt64.toNat_or, UInt64.toNat_or, h4, h3, h2, h1, h43, h432,
    ← Nat.two_pow_add_eq_or_of_lt (by omega)]
  unfold number
  omega
end PageIndices

namespace RecursivePageTable
variable (t : RecursivePageTable)

/-- Frames that are tables of some level. -/
inductive IsTable : ℕ → ℕ → Prop
  | level4 : IsTable 4 t.level4
  | next {level frame : ℕ} {i : PageTableIndex} (h : IsTable (level + 1) frame) (hlevel : 1 ≤ level)
      (hpresent : (t.memory frame i).isPresent = true) (hhuge : (t.memory frame i).isHuge = false) :
      IsTable level (t.memory frame i).frame

/-- The frame is a page table. -/
def IsTableFrame (frame : ℕ) : Prop := ∃ level, t.IsTable level frame

/-- The entry of level 4. -/
def entry4 (l4 : PageTableIndex) : PageTableEntry := t.memory t.level4 l4

/-- The entry of level 3. -/
def entry3 (l4 l3 : PageTableIndex) : PageTableEntry := t.memory (t.entry4 l4).frame l3

/-- The entry of level 2. -/
def entry2 (l4 l3 l2 : PageTableIndex) : PageTableEntry := t.memory (t.entry3 l4 l3).frame l2

/-- The entry of level 1. -/
def entry1 (l4 l3 l2 l1 : PageTableIndex) : PageTableEntry := t.memory (t.entry2 l4 l3 l2).frame l1

/-- The frame that backs a page, as the hardware finds it. -/
def translate (p : PageIndices) : Option ℕ :=
  if !(t.entry4 p.l4).isPresent then none
  else if !(t.entry3 p.l4 p.l3).isPresent then none
  else if (t.entry3 p.l4 p.l3).isHuge then
    some ((t.entry3 p.l4 p.l3).frame / 2 ^ 18 * 2 ^ 18 + p.l2 * 512 + p.l1)
  else if !(t.entry2 p.l4 p.l3 p.l2).isPresent then none
  else if (t.entry2 p.l4 p.l3 p.l2).isHuge then
    some ((t.entry2 p.l4 p.l3 p.l2).frame / 512 * 512 + p.l1)
  else if !(t.entry1 p.l4 p.l3 p.l2 p.l1).isPresent then none
  else some (t.entry1 p.l4 p.l3 p.l2 p.l1).frame

/-- The page is mapped. -/
def Mapped (p : PageIndices) : Prop := (t.translate p).isSome

/-- The page is mapped by an entry of level 1 with bit 7, which selects a memory type there. -/
def MappedWithBit7 (p : PageIndices) : Prop :=
  (t.entry4 p.l4).isPresent ∧ (t.entry3 p.l4 p.l3).isPresent ∧ ¬ (t.entry3 p.l4 p.l3).isHuge ∧
    (t.entry2 p.l4 p.l3 p.l2).isPresent ∧ ¬ (t.entry2 p.l4 p.l3 p.l2).isHuge ∧
    (t.entry1 p.l4 p.l3 p.l2 p.l1).isPresent ∧ (t.entry1 p.l4 p.l3 p.l2 p.l1).isHuge

theorem mapped_iff {p : PageIndices} : t.Mapped p ↔
    (t.entry4 p.l4).isPresent ∧ (t.entry3 p.l4 p.l3).isPresent ∧ ((t.entry3 p.l4 p.l3).isHuge ∨
      (t.entry2 p.l4 p.l3 p.l2).isPresent ∧ ((t.entry2 p.l4 p.l3 p.l2).isHuge ∨
        (t.entry1 p.l4 p.l3 p.l2 p.l1).isPresent)) := by
  unfold Mapped translate
  cases (t.entry4 p.l4).isPresent <;> cases (t.entry3 p.l4 p.l3).isPresent <;>
    cases (t.entry3 p.l4 p.l3).isHuge <;> cases (t.entry2 p.l4 p.l3 p.l2).isPresent <;>
    cases (t.entry2 p.l4 p.l3 p.l2).isHuge <;> cases (t.entry1 p.l4 p.l3 p.l2 p.l1).isPresent <;> simp

/-! ## The tables as pages -/

/-- The level 4 table is its own level 3 table. -/
theorem frame_recursive : (t.entry4 t.recursiveIndex).frame = t.level4 := t.recursive

theorem entry3_recursive (i : PageTableIndex) : t.entry3 t.recursiveIndex i = t.entry4 i := by
  rw [entry3, frame_recursive]
  rfl

theorem entry2_recursive (i j : PageTableIndex) : t.entry2 t.recursiveIndex i j = t.entry3 i j := by
  rw [entry2, entry3_recursive]
  rfl

theorem entry1_recursive (i j k : PageTableIndex) : t.entry1 t.recursiveIndex i j k = t.entry2 i j k := by
  rw [entry1, entry2_recursive]
  rfl
end RecursivePageTable
end WasabiOS
