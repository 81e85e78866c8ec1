import Mathlib.Data.List.Nodup
import Mathlib.Data.Nat.Bitwise
import WasabiOS.Machinery.Prog

/-!
# Machinery/U64 — machine arithmetic on 64 bit words, and alignment

The arithmetic a program does on `u64`: the plain operators panic on overflow, and there are
saturating and checked forms.  Each has one lemma that reads it as arithmetic of natural numbers.

`alignUp a x` is the least multiple of `a` from `x` on; a mask computes it when `a` is a power of two,
which a word with exactly one bit set is (`countOnes_eq_one`).
-/

namespace Machinery
open Nat List
namespace U64

/-- The largest `u64`. -/
def MAX : UInt64 := UInt64.ofNat (2 ^ 64 - 1)

@[simp] theorem toNat_MAX : MAX.toNat = 2 ^ 64 - 1 := by decide

theorem toNat_le (a : UInt64) : a.toNat ≤ 2 ^ 64 - 1 := le_pred_of_lt a.toNat_lt

/-! ## Operators -/

/-- `a + b` -/
def add (a b : UInt64) : Checked UInt64 :=
  if a.toNat + b.toNat < 2 ^ 64 then .ok (a + b) else .error .panic

/-- `a - b` -/
def sub (a b : UInt64) : Checked UInt64 := if b ≤ a then .ok (a - b) else .error .panic

/-- `a * b` -/
def mul (a b : UInt64) : Checked UInt64 :=
  if a.toNat * b.toNat < 2 ^ 64 then .ok (a * b) else .error .panic

def checkedAdd (a b : UInt64) : Option UInt64 :=
  if a.toNat + b.toNat < 2 ^ 64 then some (a + b) else none

def saturatingAdd (a b : UInt64) : UInt64 := if a.toNat + b.toNat < 2 ^ 64 then a + b else MAX

def saturatingSub (a b : UInt64) : UInt64 := if b ≤ a then a - b else 0

variable {a b c : UInt64}

theorem toNat_add_of_lt (h : a.toNat + b.toNat < 2 ^ 64) : (a + b).toNat = a.toNat + b.toNat := by
  rw [UInt64.toNat_add, mod_eq_of_lt h]

theorem add_eq_ok : add a b = .ok c ↔ c.toNat = a.toNat + b.toNat := by
  unfold add
  split
  case isTrue h =>
    rw [← toNat_add_of_lt h, UInt64.toNat_inj]
    exact ⟨fun e => (Except.ok.inj e).symm, fun e => congrArg _ e.symm⟩
  case isFalse h => exact ⟨nofun, fun e => absurd c.toNat_lt (by omega)⟩

theorem add_ok (h : a.toNat + b.toNat < 2 ^ 64) : add a b = .ok (a + b) := if_pos h

theorem sub_ok (h : b ≤ a) : sub a b = .ok (a - b) := if_pos h

theorem sub_eq_ok : sub a b = .ok c ↔ b.toNat ≤ a.toNat ∧ c.toNat = a.toNat - b.toNat := by
  unfold sub
  split
  case isTrue h =>
    rw [← UInt64.toNat_sub_of_le _ _ h, UInt64.toNat_inj]
    exact ⟨fun e => ⟨UInt64.le_iff_toNat_le.1 h, (Except.ok.inj e).symm⟩, fun e => congrArg _ e.2.symm⟩
  case isFalse h => exact ⟨nofun, fun e => absurd (UInt64.le_iff_toNat_le.2 e.1) h⟩

theorem toNat_mul_of_lt (h : a.toNat * b.toNat < 2 ^ 64) : (a * b).toNat = a.toNat * b.toNat := by
  rw [UInt64.toNat_mul, mod_eq_of_lt h]

theorem mul_eq_ok : mul a b = .ok c ↔ c.toNat = a.toNat * b.toNat := by
  unfold mul
  split
  case isTrue h =>
    rw [← toNat_mul_of_lt h, UInt64.toNat_inj]
    exact ⟨fun e => (Except.ok.inj e).symm, fun e => congrArg _ e.symm⟩
  case isFalse h => exact ⟨nofun, fun e => absurd c.toNat_lt (by omega)⟩

theorem checkedAdd_eq_some : checkedAdd a b = some c ↔ c.toNat = a.toNat + b.toNat := by
  unfold checkedAdd
  split
  case isTrue h =>
    rw [← toNat_add_of_lt h, UInt64.toNat_inj]
    exact ⟨fun e => (Option.some.inj e).symm, fun e => congrArg _ e.symm⟩
  case isFalse h => exact ⟨nofun, fun e => absurd c.toNat_lt (by omega)⟩

theorem checkedAdd_eq_none : checkedAdd a b = none ↔ 2 ^ 64 ≤ a.toNat + b.toNat := by
  unfold checkedAdd
  split
  case isTrue h => exact ⟨nofun, fun e => absurd h (by omega)⟩
  case isFalse h => exact ⟨fun _ => by omega, fun _ => rfl⟩

@[simp] theorem toNat_saturatingAdd (a b : UInt64) :
    (saturatingAdd a b).toNat = min (a.toNat + b.toNat) (2 ^ 64 - 1) := by
  unfold saturatingAdd
  split
  case isTrue h => rw [toNat_add_of_lt h]; omega
  case isFalse h => rw [toNat_MAX]; omega

@[simp] theorem toNat_saturatingSub (a b : UInt64) : (saturatingSub a b).toNat = a.toNat - b.toNat := by
  unfold saturatingSub
  split
  case isTrue h => exact UInt64.toNat_sub_of_le _ _ h
  case isFalse h =>
    rw [UInt64.le_iff_toNat_le] at h
    exact (Nat.sub_eq_zero_of_le (by omega)).symm

/-! ## Powers of two -/

/-- `count_ones` -/
def countOnes (a : UInt64) : ℕ := ((List.range 64).filter fun i => a.toNat.testBit i).length

/-- A number below `2 ^ w` with one bit set is a power of two. -/
theorem eq_two_pow_of_testBit {x w k : ℕ} (hx : x < 2 ^ w)
    (hbit : ∀ i < w, x.testBit i = true ↔ i = k) (hk : k < w) : x = 2 ^ k := by
  refine eq_of_testBit_eq fun i => ?_
  rw [testBit_two_pow]
  by_cases hi : i < w
  · have h := hbit i hi
    by_cases hik : i = k
    · rw [h.2 hik, hik]
      simp
    · rw [Bool.eq_false_iff.2 fun e => hik (h.1 e)]
      exact (decide_eq_false fun e => hik e.symm).symm
  · have hlt : x < 2 ^ i := lt_of_lt_of_le hx (Nat.pow_le_pow_right (by decide) (by omega))
    rw [testBit_lt_two_pow hlt]
    exact (decide_eq_false (by omega)).symm

/-- **One bit set is a power of two.** -/
theorem countOnes_eq_one : countOnes a = 1 ↔ ∃ k < 64, a.toNat = 2 ^ k := by
  unfold countOnes
  constructor
  · intro h
    obtain ⟨k, hk⟩ := length_eq_one_iff.1 h
    have hmem : ∀ i, i < 64 ∧ a.toNat.testBit i = true ↔ i = k := fun i => by
      rw [← mem_range, ← mem_filter (p := fun i => a.toNat.testBit i), hk, mem_singleton]
    have hk64 : k < 64 := ((hmem k).2 rfl).1
    refine ⟨k, hk64, eq_two_pow_of_testBit a.toNat_lt (fun i hi => ?_) hk64⟩
    exact ⟨fun e => (hmem i).1 ⟨hi, e⟩, fun e => ((hmem i).2 e).2⟩
  · rintro ⟨k, hk, ha⟩
    have hfilter : ((List.range 64).filter fun i => a.toNat.testBit i)
        = (List.range 64).filter fun i => decide (k = i) := by
      simp only [ha, testBit_two_pow]
    rw [hfilter, filter_congr fun i _ => decide_eq_decide.2 (eq_comm (a := k) (b := i)),
      filter_eq, length_replicate]
    exact count_eq_one_of_mem nodup_range (mem_range.2 hk)

/-! ## Alignment -/

/-- The least multiple of `a` from `x` on. -/
def alignUp (a x : ℕ) : ℕ := x + (a - x % a) % a

variable {n x q : ℕ}

theorem le_alignUp : x ≤ alignUp n x := le_add_right _ _

theorem alignUp_of_dvd (h : n ∣ x) : alignUp n x = x := by
  rw [alignUp, mod_eq_zero_of_dvd h, Nat.sub_zero, mod_self, add_zero]

/-- Off the multiples, one goes on to the next. -/
theorem alignUp_of_not_dvd (hn : 0 < n) (h : ¬ n ∣ x) : alignUp n x = n * (x / n + 1) := by
  have hpos : 0 < x % n := Nat.pos_of_ne_zero fun e => h (dvd_of_mod_eq_zero e)
  have hlt := mod_lt x hn
  have hx := div_add_mod x n
  rw [alignUp, mod_eq_of_lt (by omega), mul_add]
  omega

theorem dvd_alignUp (hn : 0 < n) : n ∣ alignUp n x := by
  by_cases h : n ∣ x
  · rwa [alignUp_of_dvd h]
  · rw [alignUp_of_not_dvd hn h]
    exact dvd_mul_right _ _

/-- **The least multiple.** -/
theorem alignUp_le (hn : 0 < n) (hxq : x ≤ q) (hq : n ∣ q) : alignUp n x ≤ q := by
  by_cases h : n ∣ x
  · rwa [alignUp_of_dvd h]
  · obtain ⟨t, rfl⟩ := hq
    rw [alignUp_of_not_dvd hn h]
    refine mul_le_mul_left n (succ_le_of_lt ?_)
    -- `x / n = t` would make `x` the multiple itself
    refine lt_of_le_of_ne (Nat.div_le_of_le_mul hxq) fun e => h ?_
    have hx := div_mul_le_self x n
    rw [e, mul_comm] at hx
    exact le_antisymm hxq hx ▸ dvd_mul_right n t

theorem alignUp_lt (hn : 0 < n) : alignUp n x < x + n := Nat.add_lt_add_left (mod_lt _ hn) x

/-- Alignment moves along by multiples. -/
theorem alignUp_add {d : ℕ} (hd : n ∣ d) : alignUp n (x + d) = alignUp n x + d := by
  rw [alignUp, alignUp, add_mod, mod_eq_zero_of_dvd hd, add_zero, mod_mod, add_right_comm]

/-- The least multiple, by a division that rounds down. -/
theorem alignUp_eq_mul_div (hn : 0 < n) : alignUp n x = n * ((x + (n - 1)) / n) := by
  have hx := div_add_mod x n
  have hlt := mod_lt x hn
  by_cases h : n ∣ x
  · obtain ⟨m, rfl⟩ := h
    rw [alignUp_of_dvd (dvd_mul_right n m), mul_add_div hn,
      div_eq_of_lt (sub_lt hn Nat.one_pos), add_zero]
  · have hpos : 0 < x % n := Nat.pos_of_ne_zero fun e => h (dvd_of_mod_eq_zero e)
    have hsplit : x + (n - 1) = n * (x / n + 1) + (x % n - 1) := by
      rw [mul_add]
      omega
    have hrest : (x % n - 1) / n = 0 := div_eq_of_lt (by omega)
    rw [alignUp_of_not_dvd hn h, hsplit, mul_add_div hn, hrest, add_zero]

/-! ### By mask -/

/-- A mask splits a word into the bits it keeps and those it clears. -/
theorem toNat_and_not_add (x m : UInt64) : (x &&& ~~~m).toNat + (x &&& m).toNat = x.toNat := by
  have hdisj : (x &&& ~~~m).toBitVec &&& (x &&& m).toBitVec = 0#64 := by
    ext i hi
    simp only [UInt64.toBitVec_and, UInt64.toBitVec_not, BitVec.getElem_and, BitVec.getElem_not, BitVec.getElem_zero]
    grind
  have hjoin : (x &&& ~~~m).toBitVec ||| (x &&& m).toBitVec = x.toBitVec := by
    ext i hi
    simp only [UInt64.toBitVec_and, UInt64.toBitVec_not, BitVec.getElem_or, BitVec.getElem_and, BitVec.getElem_not]
    grind
  have hsum := BitVec.toNat_add_of_and_eq_zero hdisj
  rw [BitVec.add_eq_or_of_and_eq_zero _ _ hdisj, hjoin] at hsum
  exact hsum.symm

section Mask
variable {k : ℕ} {align mask x : UInt64} (hmask : mask.toNat = 2 ^ k - 1)
include hmask

theorem toNat_and_mask : (x &&& mask).toNat = x.toNat % 2 ^ k := by
  rw [UInt64.toNat_and, hmask, and_two_pow_sub_one_eq_mod]

/-- Clearing the low bits rounds down. -/
theorem toNat_and_not_mask : (x &&& ~~~mask).toNat = 2 ^ k * (x.toNat / 2 ^ k) := by
  have hsplit := toNat_and_not_add x mask
  have hdiv := div_add_mod x.toNat (2 ^ k)
  rw [toNat_and_mask hmask] at hsplit
  omega

/-- **The front padding**: how far the next aligned address is. -/
theorem padding_ok (halign : align.toNat = 2 ^ k) :
    ∃ d, sub align (x &&& mask) = .ok d ∧ x.toNat + (d &&& mask).toNat = alignUp (2 ^ k) x.toNat := by
  have hle : (x &&& mask) ≤ align := by
    rw [UInt64.le_iff_toNat_le, toNat_and_mask hmask, halign]
    exact (mod_lt _ (Nat.two_pow_pos k)).le
  refine ⟨_, sub_ok hle, ?_⟩
  rw [toNat_and_mask hmask, UInt64.toNat_sub_of_le _ _ hle, toNat_and_mask hmask, halign, alignUp]

/-- **Rounding up** by a wrapping addition: `0` if the next multiple is no `u64`. -/
theorem toNat_roundUp (hk : k < 64) : ((x + mask) &&& ~~~mask).toNat
    = if alignUp (2 ^ k) x.toNat < 2 ^ 64 then alignUp (2 ^ k) x.toNat else 0 := by
  have hpos := Nat.two_pow_pos k
  have hx := x.toNat_lt
  rw [toNat_and_not_mask hmask, UInt64.toNat_add, hmask, alignUp_eq_mul_div hpos]
  have hword : 2 ^ 64 = 2 ^ k * 2 ^ (64 - k) := by rw [← pow_add]; congr 1; omega
  by_cases h : x.toNat + (2 ^ k - 1) < 2 ^ 64
  · rw [mod_eq_of_lt h, if_pos]
    exact lt_of_le_of_lt (mul_div_le _ _) h
  · have hle : 2 ^ k ≤ 2 ^ 64 := Nat.pow_le_pow_right (by decide) hk.le
    -- past the end the sum wraps to less than one unit
    rw [mod_eq_sub_mod (by omega), mod_eq_of_lt (by omega), div_eq_of_lt (by omega), mul_zero, if_neg]
    rw [hword, not_lt]
    refine mul_le_mul_left _ ((le_div_iff_mul_le hpos).2 ?_)
    rw [mul_comm, ← hword]
    omega
end Mask
end U64
end Machinery
