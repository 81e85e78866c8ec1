import Mathlib.Algebra.Order.BigOperators.Group.Finset
import Mathlib.Algebra.Order.Ring.Nat

/-!
# Machinery/Parties — finitely many parties over a shared memory

Every party has a local state, one step belongs to one party and changes its local state and the
memory.  What an invariant says of such a system it says by counting: `tally p f` is the number of
parties whose local state satisfies `p`, and a step moves it by at most one.
-/

namespace Machinery
open Finset
variable {ι L : Type*} [Fintype ι] [DecidableEq ι] {p : L → Prop} [DecidablePred p] {f : ι → L} {i : ι} {x : L}

/-- The number of parties whose local state satisfies `p`. -/
def tally (p : L → Prop) [DecidablePred p] (f : ι → L) : ℕ := ∑ i, if p (f i) then 1 else 0

/-- What one party contributes. -/
theorem tally_update : tally p (Function.update f i x) + (if p (f i) then 1 else 0) =
    tally p f + if p x then 1 else 0 := by
  have hsum : ∀ g : ι → L, tally p g = (∑ j ∈ Finset.univ.erase i, if p (g j) then 1 else 0) +
      if p (g i) then 1 else 0 := fun g => (sum_erase_add _ _ (mem_univ i)).symm
  have hrest : (∑ j ∈ Finset.univ.erase i, if p (Function.update f i x j) then 1 else 0) =
      ∑ j ∈ Finset.univ.erase i, if p (f j) then 1 else 0 :=
    sum_congr rfl fun j hj => by rw [Function.update_of_ne (ne_of_mem_erase hj)]
  rw [hsum (Function.update f i x), hsum f, hrest, Function.update_self]
  omega

theorem tally_update_of_iff (h : p x ↔ p (f i)) : tally p (Function.update f i x) = tally p f := by
  have hupdate := tally_update (p := p) (f := f) (i := i) (x := x)
  rw [if_congr h rfl rfl] at hupdate
  omega

theorem tally_update_add (hx : p x) (hi : ¬ p (f i)) : tally p (Function.update f i x) = tally p f + 1 := by
  have hupdate := tally_update (p := p) (f := f) (i := i) (x := x)
  rw [if_pos hx, if_neg hi] at hupdate
  exact hupdate

theorem tally_update_sub (hx : ¬ p x) (hi : p (f i)) : tally p (Function.update f i x) + 1 = tally p f := by
  have hupdate := tally_update (p := p) (f := f) (i := i) (x := x)
  rw [if_neg hx, if_pos hi] at hupdate
  exact hupdate

omit [DecidableEq ι] in
theorem tally_eq_zero : tally p f = 0 ↔ ∀ i, ¬ p (f i) := by
  rw [tally, sum_eq_zero_iff]
  simp

omit [DecidableEq ι] in
theorem tally_le : tally p f ≤ Fintype.card ι := by
  refine (sum_le_sum fun i _ => ?_).trans_eq (card_eq_sum_ones Finset.univ).symm
  split <;> omega

omit [DecidableEq ι] in
theorem tally_lt (hi : ¬ p (f i)) : tally p f < Fintype.card ι := by
  refine (sum_lt_sum (fun i _ => ?_) ⟨i, mem_univ i, ?_⟩).trans_eq (card_eq_sum_ones Finset.univ).symm
  · split <;> omega
  · rw [if_neg hi]
    omega

omit [DecidableEq ι] in
theorem tally_eq_card : tally p f = Fintype.card ι ↔ ∀ i, p (f i) := by
  constructor
  · intro h i
    by_contra hi
    exact (tally_lt hi).ne h
  · intro h
    exact (sum_congr rfl fun i _ => if_pos (h i)).trans (card_eq_sum_ones Finset.univ).symm

/-- Every other party is out if the tally is that of one. -/
theorem not_of_tally_eq_one (h : tally p f = 1) (hi : p (f i)) {j : ι} (hj : j ≠ i) : ¬ p (f j) := by
  intro hp
  have hle : (∑ k ∈ {i, j}, if p (f k) then 1 else 0) ≤ tally p f := sum_le_sum_of_subset (subset_univ _)
  rw [sum_pair hj.symm, if_pos hi, if_pos hp, h] at hle
  omega

omit [DecidableEq ι] in
/-- One party alone. -/
theorem tally_eq_one (hi : p (f i)) (h : ∀ j ≠ i, ¬ p (f j)) : tally p f = 1 := by
  refine (sum_eq_single i (fun j _ hj => if_neg (h j hj)) fun hne => ?_).trans (if_pos hi)
  exact absurd (mem_univ i) hne
end Machinery
