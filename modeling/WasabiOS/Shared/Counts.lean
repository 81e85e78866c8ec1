import Mathlib.Algebra.Order.Ring.Nat

/-!
# Shared/Counts — how many entries cover a size

`counts_required_for!` divides and rounds up.
-/

namespace WasabiOS

/-- `counts_required_for!` -/
def countsRequiredFor (entrySize totalSize : ℕ) : ℕ :=
  totalSize / entrySize + if totalSize % entrySize ≠ 0 then 1 else 0

theorem le_countsRequiredFor_mul {n k : ℕ} (hn : 0 < n) : k ≤ countsRequiredFor n k * n := by
  have hdiv := Nat.div_add_mod' k n
  have hlt := Nat.mod_lt k hn
  unfold countsRequiredFor
  split_ifs with h
  · rw [add_mul]
    omega
  · rw [add_zero]
    omega

theorem countsRequiredFor_zero (n : ℕ) : countsRequiredFor n 0 = 0 := by
  rw [countsRequiredFor, Nat.zero_div, Nat.zero_mod, if_neg fun h => h rfl]

/-- One entry, and what the rest needs. -/
theorem countsRequiredFor_of_pos {n k : ℕ} (hn : 0 < n) (hk : 0 < k) :
    countsRequiredFor n k = countsRequiredFor n (k - n) + 1 := by
  unfold countsRequiredFor
  rcases lt_or_ge k n with hlt | hge
  · rw [Nat.div_eq_of_lt hlt, Nat.mod_eq_of_lt hlt, Nat.sub_eq_zero_of_le hlt.le, Nat.zero_div, Nat.zero_mod,
      if_pos hk.ne', if_neg fun h => h rfl]
  · rw [Nat.div_eq_sub_div hn hge, Nat.mod_eq_sub_mod hge]
    omega

theorem countsRequiredFor_mono {n k k' : ℕ} (h : k ≤ k') :
    countsRequiredFor n k ≤ countsRequiredFor n k' := by
  have hdiv : k / n ≤ k' / n := Nat.div_le_div_right h
  unfold countsRequiredFor
  rcases hdiv.eq_or_lt with heq | hlt
  · have hk := Nat.div_add_mod' k n
    have hk' := Nat.div_add_mod' k' n
    rw [heq] at hk ⊢
    split_ifs <;> omega
  · split_ifs <;> omega

theorem countsRequiredFor_le {n k c : ℕ} (hn : 0 < n) (h : k ≤ c * n) : countsRequiredFor n k ≤ c := by
  have hdiv : k / n ≤ c := by
    rw [← Nat.mul_div_cancel c hn]
    exact Nat.div_le_div_right h
  unfold countsRequiredFor
  split_ifs with hmod
  · refine lt_of_le_of_ne hdiv fun heq => hmod ?_
    have hk := Nat.div_add_mod' k n
    rw [heq] at hk
    omega
  · exact hdiv
end WasabiOS
