import Mathlib.Algebra.Order.Ring.Nat
import WasabiOS.Machinery.Prog

/-!
# Shared/ModGroup — numbers that wrap at a modulus

Where the sum does not fit the type, `+` takes the distance from the value to the modulus off the right
hand side instead.
-/

open Machinery
namespace WasabiOS

/-- A number that automatically wraps at `modulo`. -/
structure WrappingValue where
  value : ℕ
  modulo : ℕ
  deriving DecidableEq, Repr

namespace WrappingValue

/-- Creates a new value 0 -/
def zero (modulo : ℕ) : WrappingValue := ⟨0, modulo⟩

/-- `x % modulo` -/
def rem (x modulo : ℕ) : Checked WrappingValue :=
  if modulo = 0 then .error .panic else .ok ⟨x % modulo, modulo⟩

/-- `self + rhs` for a `u16` -/
def add (rhs : ℕ) (w : WrappingValue) : Checked WrappingValue :=
  if w.value + rhs < 2 ^ 16 then rem (w.value + rhs) w.modulo
  else if w.modulo < w.value then .error .panic
  else if rhs < w.modulo - w.value then .error .panic
  else rem (rhs - (w.modulo - w.value)) w.modulo

/-- `self + rhs` for an unsigned type of `bits` bits -/
def addBits (bits : ℕ) (w : WrappingValue) (rhs : ℕ) : Checked WrappingValue :=
  if w.value + rhs < 2 ^ bits then rem (w.value + rhs) w.modulo
  else if w.modulo < w.value then .error .panic
  else if rhs < w.modulo - w.value then .error .panic
  else rem (rhs - (w.modulo - w.value)) w.modulo

variable {bits m v : ℕ}

theorem addBits_eq (hv : v < m) (hm : m < 2 ^ bits) (rhs : ℕ) : addBits bits ⟨v, m⟩ rhs = .ok ⟨(v + rhs) % m, m⟩ := by
  have hpos : m ≠ 0 := by omega
  unfold addBits
  split
  case isTrue => exact if_neg hpos
  case isFalse hover =>
    -- the sum is past the type, so past the modulus
    have hover : ¬ v + rhs < 2 ^ bits := hover
    have hrhs : rhs - (m - v) = v + rhs - m := by omega
    rw [if_neg (by show ¬ m < v; omega), if_neg (by show ¬ rhs < m - v; omega)]
    show rem (rhs - (m - v)) m = _
    rw [rem, if_neg hpos, hrhs, ← Nat.mod_eq_sub_mod (by omega)]

theorem foldlM_addBits (hv : v < m) (hm : m < 2 ^ bits) (rhss : List ℕ) :
    rhss.foldlM (addBits bits) ⟨v, m⟩ = .ok ⟨(v + rhss.sum) % m, m⟩ := by
  induction rhss generalizing v with
  | nil => rw [List.sum_nil, add_zero, Nat.mod_eq_of_lt hv]; rfl
  | cons rhs rhss ih =>
    rw [List.foldlM_cons, addBits_eq hv hm, ok_bind, ih (Nat.mod_lt _ (by omega)), Nat.mod_add_mod,
      List.sum_cons, add_assoc]

theorem add_one {n i : ℕ} (hn : 0 < n) (hn' : n < 2 ^ 16) : (⟨i % n, n⟩ : WrappingValue).add 1 = .ok ⟨(i + 1) % n, n⟩ :=
  (addBits_eq (Nat.mod_lt i hn) hn' 1).trans (by rw [Nat.mod_add_mod])

/-- Adding is addition modulo `m` without overflow: it never panics, is associative, and a sequence of
additions is one addition of the sum modulo `m`. -/
theorem addBits_sound (hv : v < m) (hm : m < 2 ^ bits) (a b : ℕ) (rhss : List ℕ) :
    addBits bits ⟨v, m⟩ a = .ok ⟨(v + a) % m, m⟩ ∧
    (addBits bits ⟨v, m⟩ a >>= fun w => addBits bits w b) =
      (addBits bits ⟨a % m, m⟩ b >>= fun w => addBits bits ⟨v, m⟩ w.value) ∧
    rhss.foldlM (addBits bits) ⟨v, m⟩ = addBits bits ⟨v, m⟩ (rhss.sum % m) := by
  have hmod (x : ℕ) : x % m < m := Nat.mod_lt x (by omega)
  refine ⟨addBits_eq hv hm a, ?_, ?_⟩
  · rw [addBits_eq hv hm, addBits_eq (hmod a) hm, ok_bind, ok_bind, addBits_eq (hmod _) hm, addBits_eq hv hm,
      Nat.mod_add_mod, Nat.mod_add_mod, Nat.add_mod_mod, add_assoc]
  · rw [foldlM_addBits hv hm, addBits_eq hv hm, Nat.add_mod_mod]

theorem addBits_sound_overflow : addBits 8 ⟨4, 5⟩ 255 = .ok ⟨4, 5⟩ ∧
    List.foldlM (addBits 8) ⟨4, 5⟩ [255, 254] = addBits 8 ⟨4, 5⟩ 4 :=
  have h := addBits_sound (show 4 < 5 by decide) (show 5 < 2 ^ 8 by decide) 255 254 [255, 254]
  ⟨h.1, h.2.2⟩
end WrappingValue
end WasabiOS
