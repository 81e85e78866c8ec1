import Mathlib.Algebra.Order.Ring.Nat
import WasabiOS.Machinery.Prog

/-!
# Shared/Duration — durations in five units

Two durations are compared in the smaller of their units; a value that does not fit there is the larger one.
The source counts 24 minutes to the hour.
-/

open Machinery
namespace WasabiOS

/-- The cases of `Duration`. -/
inductive TimeUnit where
  | micros | millis | seconds | minutes | hours
  deriving DecidableEq, Repr

namespace TimeUnit
variable {u v : TimeUnit}

def MINUTES_MUL : ℕ := 60000000

def HOURS_MUL : ℕ := 24 * MINUTES_MUL

/-- returns the internally used multiplier for conversions -/
def multiplier : TimeUnit → ℕ
  | micros => 1
  | millis => 1000
  | seconds => 1000000
  | minutes => MINUTES_MUL
  | hours => HOURS_MUL

/-- The microseconds of a unit. -/
def length : TimeUnit → ℕ
  | micros => 1
  | millis => 1000
  | seconds => 1000000
  | minutes => 60 * 1000000
  | hours => 60 * (60 * 1000000)

theorem multiplier_pos (u : TimeUnit) : 0 < u.multiplier := by cases u <;> decide

theorem multiplier_dvd (h : u.multiplier ≤ v.multiplier) : u.multiplier ∣ v.multiplier := by
  cases u <;> cases v <;> revert h <;> decide

theorem length_eq (h : u ≠ hours) : u.length = u.multiplier := by cases u <;> revert h <;> decide

theorem ne_hours_of_lt (h : u.multiplier < v.multiplier) : u ≠ hours := by cases u <;> cases v <;> revert h <;> decide
end TimeUnit

open TimeUnit

/-- A duration, in a unit of its own: `Duration::Micros(x)` is `⟨.micros, x⟩`. -/
structure Duration where
  unit : TimeUnit
  asU64 : UInt64
  deriving DecidableEq

namespace Duration

/-- `u64::checked_mul` -/
def checkedMul (x y : ℕ) : Option ℕ := if x * y < 2 ^ 64 then some (x * y) else none

def smallestMultiplier (a b : Duration) : ℕ :=
  if a.unit.multiplier < b.unit.multiplier then a.unit.multiplier else b.unit.multiplier

/-- returns both durations with the smaller multiplier, used for conversions -/
def withSmallerMultiplier (a b : Duration) : Option ℕ × Option ℕ :=
  let target := smallestMultiplier a b
  (checkedMul a.asU64.toNat (a.unit.multiplier / target), checkedMul b.asU64.toNat (b.unit.multiplier / target))

def eq (a b : Duration) : Bool :=
  match withSmallerMultiplier a b with
  | (some x, some y) => x == y
  | _ => false

def cmp (a b : Duration) : Ordering :=
  match withSmallerMultiplier a b with
  | (some x, some y) => compare x y
  | (some _, none) => .lt
  | (none, some _) => .gt
  | (none, none) => .eq

/-- `to_micros`, …, `to_hours`: the product has to fit, not only the quotient -/
def toUnit (target : TimeUnit) (d : Duration) : Checked Duration :=
  if d.asU64.toNat * d.unit.multiplier < 2 ^ 64 then
    .ok ⟨target, UInt64.ofNat (d.asU64.toNat * d.unit.multiplier / target.multiplier)⟩
  else .error .panic

/-! ## Real lengths -/

/-- The length in microseconds. -/
def length (d : Duration) : ℕ := d.asU64.toNat * d.unit.length

/-- The duration is compared with the other by their lengths, and converted to smaller units without loss. -/
structure ByLength (a b : Duration) : Prop where
  eq : a.eq b = decide (a.length = b.length)
  cmp : a.cmp b = compare a.length b.length
  toUnit : ∀ target, target.multiplier < a.unit.multiplier → ∀ c, a.toUnit target = .ok c → c.length = a.length

theorem not_byLength_hour : ¬ ByLength ⟨hours, 1⟩ ⟨minutes, 60⟩ := fun h => absurd h.eq (by decide)

/-- Hours are compared with another unit only if 24 minutes each and 60 minutes each give the same. -/
def Apart (a b : Duration) : Prop := a.unit = hours → b.unit ≠ hours →
    a.asU64 = 0 ∨ b.length < a.asU64.toNat * (24 * minutes.length) ∨ a.length < b.length

/-- Hours are converted only if there are none, or more than fit. -/
def Convertible (a : Duration) : Prop := a.unit = hours → a.asU64 = 0 ∨ 2 ^ 64 ≤ a.asU64.toNat * (24 * minutes.length)

/-- The length, as the source has it. -/
def scaled (d : Duration) : ℕ := d.asU64.toNat * d.unit.multiplier

variable {a b c : Duration}

/-- **Both in the smaller unit**: one of them fits, since it is in that unit already. -/
theorem exists_smaller (a b : Duration) : ∃ t u v, 0 < t ∧ a.scaled = t * u ∧ b.scaled = t * v ∧
    (u < 2 ^ 64 ∨ v < 2 ^ 64) ∧
    withSmallerMultiplier a b = (if u < 2 ^ 64 then some u else none, if v < 2 ^ 64 then some v else none) := by
  rw [withSmallerMultiplier, smallestMultiplier]
  split_ifs with h
  · obtain ⟨q, hq⟩ := multiplier_dvd h.le
    have ha := a.unit.multiplier_pos
    refine ⟨_, a.asU64.toNat, b.asU64.toNat * q, ha, mul_comm .., ?_, .inl a.asU64.toNat_lt, ?_⟩
    · rw [scaled, hq, mul_left_comm]
    · rw [checkedMul, checkedMul, hq, Nat.div_self ha, Nat.mul_div_cancel_left q ha, mul_one]
  · obtain ⟨q, hq⟩ := multiplier_dvd (not_lt.1 h)
    have hb := b.unit.multiplier_pos
    refine ⟨_, a.asU64.toNat * q, b.asU64.toNat, hb, ?_, mul_comm .., .inr b.asU64.toNat_lt, ?_⟩
    · rw [scaled, hq, mul_left_comm]
    · rw [checkedMul, checkedMul, hq, Nat.div_self hb, Nat.mul_div_cancel_left q hb, mul_one]

/-- **Durations are compared by their lengths as the source has them**, also where a value overflows. -/
theorem cmp_eq (a b : Duration) : a.cmp b = compare a.scaled b.scaled := by
  obtain ⟨t, u, v, ht, hu, hv, hfits, hsmall⟩ := exists_smaller a b
  have hscale : compare (t * u) (t * v) = compare u v := by
    simp only [compare, compareOfLessAndEq, Nat.mul_lt_mul_left ht, Nat.mul_right_inj ht.ne']
  rw [cmp, hsmall, hu, hv, hscale]
  split_ifs with hx hy hy
  · rfl
  · exact (compare_lt_iff_lt.2 (by omega)).symm
  · exact (compare_gt_iff_gt.2 (by omega)).symm
  · omega

theorem eq_iff_cmp (a b : Duration) : a.eq b = true ↔ a.cmp b = .eq := by
  obtain ⟨t, u, v, -, -, -, hfits, hsmall⟩ := exists_smaller a b
  rw [cmp, eq, hsmall]
  split_ifs with hx hy hy
  · exact beq_iff_eq.trans compare_eq_iff_eq.symm
  · decide
  · decide
  · omega

theorem transCmp : Std.TransCmp cmp := by
  have hcmp : cmp = compareOn scaled := funext fun a => funext fun b => cmp_eq a b
  rw [hcmp]
  infer_instance

theorem compare_congr {x y x' y' : ℕ} : compare x y = compare x' y' ↔ (x < y ↔ x' < y') ∧ (x = y ↔ x' = y') := by
  rw [← compare_lt_iff_lt (a := x), ← compare_lt_iff_lt (a := x'), ← compare_eq_iff_eq (a := x),
    ← compare_eq_iff_eq (a := x')]
  cases compare x y <;> cases compare x' y' <;> decide

theorem asU64_eq_zero : a.asU64 = 0 ↔ a.asU64.toNat = 0 := UInt64.toNat_inj.symm

theorem cmp_iff : a.cmp b = compare a.length b.length ↔ Apart a b ∧ Apart b a := by
  have hhour : hours.multiplier = 1440000000 ∧ hours.length = 3600000000 ∧ minutes.length = 60000000 := by decide
  rw [cmp_eq, compare_congr, Apart, Apart, scaled, scaled, length, length, asU64_eq_zero, asU64_eq_zero]
  by_cases ha : a.unit = hours <;> by_cases hb : b.unit = hours
  · simp only [ha, hb, hhour, ne_eq, not_true_eq_false, false_imp_iff, imp_true_iff, and_self, iff_true]
    omega
  · simp only [ha, hb, hhour, length_eq hb, ne_eq, not_true_eq_false, not_false_eq_true, true_imp_iff,
      false_imp_iff, and_true]
    omega
  · simp only [ha, hb, hhour, length_eq ha, ne_eq, not_true_eq_false, not_false_eq_true, true_imp_iff,
      false_imp_iff, true_and]
    omega
  · simp only [ha, hb, length_eq ha, length_eq hb, false_imp_iff, and_self]

/-- **Conversion to a smaller unit** keeps the length as the source has it. -/
theorem length_toUnit {target : TimeUnit} (hlt : target.multiplier < a.unit.multiplier) (hc : a.toUnit target = .ok c) :
    c.length = a.scaled := by
  rw [toUnit] at hc
  split_ifs at hc with hfits
  obtain rfl := Except.ok.inj hc
  rw [length, length_eq (ne_hours_of_lt hlt), UInt64.toNat_ofNat_of_lt' (lt_of_le_of_lt (Nat.div_le_self ..) hfits)]
  exact Nat.div_mul_cancel (Dvd.dvd.mul_left (multiplier_dvd hlt.le) _)

theorem toUnit_iff : (∀ target, target.multiplier < a.unit.multiplier → ∀ c, a.toUnit target = .ok c →
    c.length = a.length) ↔ Convertible a := by
  constructor
  · intro h hours
    refine or_iff_not_imp_right.2 fun hfits => ?_
    have hlt : micros.multiplier < a.unit.multiplier := by rw [hours]; decide
    have hto : a.toUnit micros = .ok _ := if_pos (by rw [hours]; exact not_le.1 hfits)
    have hlen := h micros hlt _ hto
    rw [length_toUnit hlt hto, scaled, length, hours] at hlen
    simp only [multiplier, TimeUnit.length, HOURS_MUL, MINUTES_MUL] at hlen
    exact asU64_eq_zero.2 (by omega)
  · intro h target hlt c hc
    rw [length_toUnit hlt hc, scaled, length]
    by_cases hours : a.unit = .hours
    · obtain hzero | hlarge := h hours
      · rw [hzero, UInt64.toNat_zero, zero_mul, zero_mul]
      · rw [toUnit, if_neg (by rw [hours]; exact not_lt.2 hlarge)] at hc
        cases hc
    · rw [length_eq hours]

/-- **When durations are what they say**: the comparison is always a total order; it is that of the lengths,
and conversion keeps them, exactly if no hours take part, or numbers of hours for which the minutes in an hour
make no difference. -/
theorem byLength_iff (a b : Duration) : Std.TransCmp cmp ∧ (∀ d e : Duration, d.eq e = true ↔ d.cmp e = .eq) ∧
    (ByLength a b ↔ (Apart a b ∧ Apart b a) ∧ Convertible a) := by
  refine ⟨transCmp, eq_iff_cmp, fun h => ⟨cmp_iff.1 h.cmp, toUnit_iff.1 h.toUnit⟩, fun h => ?_⟩
  have hlen := cmp_iff.2 h.1
  refine ⟨Bool.eq_iff_iff.2 ?_, hlen, toUnit_iff.2 h.2⟩
  rw [eq_iff_cmp, hlen, compare_eq_iff_eq, decide_eq_true_iff]
end Duration
end WasabiOS
