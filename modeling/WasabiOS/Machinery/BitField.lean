import Mathlib.Data.Nat.Bitwise
import Mathlib.Data.Nat.Log
import WasabiOS.Machinery.Prog

/-!
# Machinery/BitField — words that are cut into fields

A range of bits is `lo..hi`, the end excluded.  **Adjacent fields join** (`mod_or_getBits`): the bits below a field and
the field moved back in its place are the bits below its end, so a word that is cut without gaps is put together
again one field at a time.
-/

namespace Machinery

/-- `value.get_bits(lo..hi)` -/
def getBits (value lo hi : ℕ) : ℕ := value >>> lo % 2 ^ (hi - lo)

/-- `value.get_bit(i)` -/
def getBit (value i : ℕ) : Bool := value.testBit i

/-- A conversion into `width` bits that has to succeed. -/
def narrow (width x : ℕ) : Checked ℕ := if x < 2 ^ width then .ok x else .error .panic

/-- `1 << n` as an `i32`, converted into `width` bits. -/
def oneShl (width n : ℕ) : Checked ℕ := if n < 31 ∧ n < width then .ok (2 ^ n) else .error .panic

/-- `x.ilog2()` -/
def ilog2 (x : ℕ) : Checked ℕ := if x = 0 then .error .panic else .ok (Nat.log 2 x)

/-- `a - b` of words -/
def checkedSub (a b : ℕ) : Checked ℕ := if b ≤ a then .ok (a - b) else .error .panic

/-- `assert!` -/
def ensure (b : Bool) : Checked Unit := if b then .ok () else .error .panic

variable {value lo hi : ℕ}

theorem getBits_lt : getBits value lo hi < 2 ^ (hi - lo) := Nat.mod_lt _ (Nat.two_pow_pos _)

theorem narrow_getBits {width : ℕ} (h : hi - lo ≤ width) :
    narrow width (getBits value lo hi) = .ok (getBits value lo hi) :=
  if_pos (getBits_lt.trans_le (Nat.pow_le_pow_right Nat.two_pos h))

@[simp] theorem ilog2_two_pow (n : ℕ) : ilog2 (2 ^ n) = .ok n := by
  rw [ilog2, if_neg (Nat.two_pow_pos n).ne', Nat.log_pow Nat.one_lt_two]

/-- **Adjacent fields join.** -/
theorem mod_or_getBits (value : ℕ) (h : lo ≤ hi) :
    value % 2 ^ lo ||| getBits value lo hi <<< lo = value % 2 ^ hi := by
  refine Nat.eq_of_testBit_eq fun i => ?_
  rw [getBits, Nat.testBit_or, Nat.testBit_mod_two_pow, Nat.testBit_shiftLeft, Nat.testBit_mod_two_pow,
    Nat.testBit_shiftRight, Nat.testBit_mod_two_pow]
  by_cases hlt : i < lo
  · simp [hlt, hlt.trans_le h]
  · have hadd : lo + (i - lo) = i := Nat.add_sub_of_le (Nat.le_of_not_lt hlt)
    have hrange : i - lo < hi - lo ↔ i < hi := by omega
    simp [hlt, Nat.le_of_not_lt hlt, hadd, hrange]

theorem toNat_getBit (value i : ℕ) : (getBit value i).toNat = getBits value i (i + 1) := by
  rw [getBit, Nat.toNat_testBit, getBits, Nat.add_sub_cancel_left, Nat.shiftRight_eq_div_pow, pow_one]

theorem getBits_zero (value hi : ℕ) : getBits value 0 hi = value % 2 ^ hi := rfl
end Machinery
