import WasabiOS.Machinery.U64

/-!
# Kernel/Paging — addresses, pages and frames

The types of the `x86_64` crate the allocators hand out: virtual addresses are canonical, physical ones
have 52 bits, and a page or frame starts at a multiple of its size.  Arithmetic that leaves these
bounds panics.
-/

open Machinery
namespace WasabiOS

/-- The three sizes of pages and frames. -/
inductive PageSize where
  | Size4KiB
  | Size2MiB
  | Size1GiB
  deriving DecidableEq, Repr

namespace PageSize

/-- The size in bytes -/
def SIZE : PageSize → UInt64
  | Size4KiB => 4096
  | Size2MiB => 2097152
  | Size1GiB => 1073741824

/-- The size, as a power of two. -/
def shift : PageSize → ℕ
  | Size4KiB => 12
  | Size2MiB => 21
  | Size1GiB => 30

section
variable (S : PageSize)
include S

theorem toNat_SIZE : S.SIZE.toNat = 2 ^ S.shift := by cases S <;> rfl

theorem dvd_SIZE : 4096 ∣ S.SIZE.toNat := by cases S <;> decide

theorem le_SIZE : 4096 ≤ S.SIZE.toNat := by cases S <;> decide

theorem SIZE_pos : 0 < S.SIZE.toNat := lt_of_lt_of_le (by decide) S.le_SIZE

theorem one_le_SIZE : 1 ≤ S.SIZE := UInt64.le_iff_toNat_le.2 S.SIZE_pos

theorem toNat_SIZE_sub_one : (S.SIZE - 1).toNat = S.SIZE.toNat - 1 :=
  UInt64.toNat_sub_of_le _ _ S.one_le_SIZE

theorem SIZE_dvd : S.SIZE.toNat ∣ 2 ^ 64 := by cases S <;> decide
end
end PageSize

/-- An address of an address space. -/
@[ext] structure MemAddr (Valid : ℕ → Prop) where
  asU64 : UInt64
  valid : Valid asU64.toNat
  deriving DecidableEq, Repr

/-- Bits 47 to 63 of a canonical address are equal. -/
def IsCanonical (a : ℕ) : Prop := a < 2 ^ 47 ∨ 2 ^ 64 - 2 ^ 47 ≤ a

/-- A physical address has 52 bits. -/
def IsPhysical (a : ℕ) : Prop := a < 2 ^ 52

instance : DecidablePred IsCanonical := fun _ => inferInstanceAs (Decidable (_ ∨ _))

instance : DecidablePred IsPhysical := fun _ => Nat.decLt _ _

/-- A canonical virtual address. -/
abbrev VirtAddr := MemAddr IsCanonical

/-- A physical address. -/
abbrev PhysAddr := MemAddr IsPhysical

/-- A unit of an address space: it starts at a multiple of its size. -/
@[ext] structure Aligned (Valid : ℕ → Prop) (S : PageSize) where
  startAddress : MemAddr Valid
  aligned : S.SIZE.toNat ∣ startAddress.asU64.toNat
  deriving DecidableEq, Repr

/-- A virtual memory page. -/
abbrev Page := Aligned IsCanonical

/-- A physical memory frame. -/
abbrev PhysFrame := Aligned IsPhysical

variable {Valid : ℕ → Prop} {S : PageSize}
namespace MemAddr
variable [DecidablePred Valid]

/-- `VirtAddr::new`, `PhysAddr::new` -/
def new (addr : UInt64) : Checked (MemAddr Valid) :=
  if h : Valid addr.toNat then .ok ⟨addr, h⟩ else .error .panic

/-- `VirtAddr + u64`, `PhysAddr + u64` -/
def add (a : MemAddr Valid) (rhs : UInt64) : Checked (MemAddr Valid) := do new (← U64.add a.asU64 rhs)

theorem new_eq_ok {addr : UInt64} {a : MemAddr Valid} (h : new addr = .ok a) : a.asU64 = addr := by
  unfold new at h
  split at h
  case isTrue => cases h; rfl
  case isFalse => cases h

theorem add_eq_ok {a b : MemAddr Valid} {rhs : UInt64} (h : a.add rhs = .ok b) :
    b.asU64.toNat = a.asU64.toNat + rhs.toNat := by
  obtain ⟨c, hadd, hnew⟩ := bind_eq_ok.1 h
  rw [new_eq_ok hnew]
  exact U64.add_eq_ok.1 hadd
end MemAddr

namespace Aligned

/-- The address of the first byte. -/
def start (u : Aligned Valid S) : UInt64 := u.startAddress.asU64

/-- `Page::from_start_address(address).expect(..)`, and the same for frames -/
def fromStartAddress (S : PageSize) (address : MemAddr Valid) : Checked (Aligned Valid S) :=
  if h : S.SIZE.toNat ∣ address.asU64.toNat then .ok ⟨address, h⟩ else .error .panic

theorem fromStartAddress_eq_ok {address : MemAddr Valid} {u : Aligned Valid S}
    (h : fromStartAddress S address = .ok u) : u.startAddress = address := by
  unfold fromStartAddress at h
  split at h
  case isTrue => cases h; rfl
  case isFalse => cases h

/-- A unit ends inside the address space. -/
theorem start_add_SIZE_le (u : Aligned Valid S) : u.start.toNat + S.SIZE.toNat ≤ 2 ^ 64 := by
  obtain ⟨m, hm⟩ := u.aligned
  obtain ⟨w, hw⟩ := S.SIZE_dvd
  have hlt := u.startAddress.asU64.toNat_lt
  rw [hm, hw, Nat.mul_lt_mul_left S.SIZE_pos] at hlt
  rw [start, hm, hw, ← Nat.mul_succ]
  exact Nat.mul_le_mul_left _ hlt

variable [DecidablePred Valid]

/-- `Page + u64`, `PhysFrame + u64`: the sum is aligned again. -/
def add (u : Aligned Valid S) (rhs : UInt64) : Checked (Aligned Valid S) := do
  fromStartAddress S (← u.startAddress.add (← U64.mul rhs S.SIZE))

theorem add_eq_ok {u v : Aligned Valid S} {rhs : UInt64} (h : u.add rhs = .ok v) :
    v.start.toNat = u.start.toNat + rhs.toNat * S.SIZE.toNat := by
  obtain ⟨n, hmul, h⟩ := bind_eq_ok.1 h
  obtain ⟨a, hadd, h⟩ := bind_eq_ok.1 h
  rw [start, fromStartAddress_eq_ok h, MemAddr.add_eq_ok hadd, U64.mul_eq_ok.1 hmul]
  rfl
end Aligned
end WasabiOS
