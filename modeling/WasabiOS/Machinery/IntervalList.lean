import Mathlib.Algebra.Order.Ring.Nat
import Mathlib.Order.Interval.Finset.Nat

/-!
# Machinery/IntervalList — sets of naturals as sorted lists of separated intervals

The items of a list stand for nonempty intervals `[lo a, hi a)`.  A list is **separated** if its
items are in order with a gap between any two; then it is the unique such list for the set it
**covers**.  The lemmas say how the set changes when an item is taken out, cut down or put in.
-/

namespace Machinery
open List Finset
namespace IntervalList
variable {ι : Type*} (lo hi : ι → ℕ)

/-- In order, with at least one number in no interval between two items. -/
def Separated (l : List ι) : Prop := l.Pairwise fun a b => hi a < lo b

/-- The numbers in some interval of the list. -/
def cover : List ι → Finset ℕ
  | [] => ∅
  | a :: l => Finset.Ico (lo a) (hi a) ∪ cover l

variable {lo hi} {a x : ι} {l l1 l2 m : List ι} {b : ℕ}

@[simp] theorem cover_nil : cover lo hi [] = ∅ := rfl

@[simp] theorem cover_cons : cover lo hi (a :: l) = Finset.Ico (lo a) (hi a) ∪ cover lo hi l := rfl

@[simp] theorem cover_append : cover lo hi (l1 ++ l2) = cover lo hi l1 ∪ cover lo hi l2 := by
  induction l1 with
  | nil => simp
  | cons a l ih => rw [cons_append, cover_cons, ih, cover_cons, union_assoc]

theorem mem_cover : b ∈ cover lo hi l ↔ ∃ a ∈ l, lo a ≤ b ∧ b < hi a := by
  induction l with
  | nil => simp
  | cons a l ih => simp [ih]

theorem separated_nil : Separated lo hi ([] : List ι) := List.Pairwise.nil

section Proper
variable (hproper : ∀ a : ι, lo a < hi a)
include hproper

/-- An item is separated from the rest if its end is below every number of the rest. -/
theorem separated_cons : Separated lo hi (a :: l) ↔ (∀ b ∈ cover lo hi l, hi a < b) ∧ Separated lo hi l := by
  unfold Separated
  rw [List.pairwise_cons]
  refine and_congr_left fun _ => ⟨fun h b hb => ?_, fun h x hx => ?_⟩
  · obtain ⟨x, hx, hlo, -⟩ := mem_cover.1 hb
    exact lt_of_lt_of_le (h x hx) hlo
  · exact h (lo x) (mem_cover.2 ⟨x, hx, le_refl _, hproper x⟩)

/-- Checking neighbours is enough. -/
theorem separated_cons_cons : Separated lo hi (a :: x :: l) ↔ hi a < lo x ∧ Separated lo hi (x :: l) := by
  rw [separated_cons hproper]
  refine and_congr_left fun hx => ⟨fun h => ?_, fun h b hb => ?_⟩
  · exact h (lo x) (mem_cover.2 ⟨x, mem_cons_self, le_refl _, hproper x⟩)
  · obtain ⟨y, hy, hlo, -⟩ := mem_cover.1 hb
    rcases mem_cons.1 hy with rfl | hy
    · exact lt_of_lt_of_le h hlo
    · have hxy := (pairwise_cons.1 hx).1 y hy
      exact lt_trans h (lt_trans (hproper x) (lt_of_lt_of_le hxy hlo))
end Proper

theorem Separated.tail (h : Separated lo hi (a :: l)) : Separated lo hi l := (pairwise_cons.1 h).2

section
variable (h : Separated lo hi (l1 ++ a :: l2))
include h

/-- The interval of an item is disjoint from those of the others. -/
theorem Separated.disjoint_middle :
    Disjoint (Finset.Ico (lo a) (hi a)) (cover lo hi (l1 ++ l2)) := by
  obtain ⟨-, ha, hlt⟩ := List.pairwise_append.1 h
  rw [Finset.disjoint_left]
  intro b hb hc
  obtain ⟨hlo, hhi⟩ := Finset.mem_Ico.1 hb
  obtain ⟨y, hy, hylo, hyhi⟩ := mem_cover.1 hc
  rcases mem_append.1 hy with hy | hy
  · have := hlt y hy a mem_cons_self
    omega
  · have := (pairwise_cons.1 ha).1 y hy
    omega

/-- Items inside the interval of an item may take its place. -/
theorem Separated.replace (hm : Separated lo hi m)
    (hin : ∀ x ∈ m, lo a ≤ lo x ∧ hi x ≤ hi a) : Separated lo hi (l1 ++ (m ++ l2)) := by
  obtain ⟨h1, h2, hlt⟩ := pairwise_append.1 h
  obtain ⟨ha, h2⟩ := pairwise_cons.1 h2
  refine pairwise_append.2 ⟨h1, pairwise_append.2 ⟨hm, h2, fun x hx y hy => ?_⟩, ?_⟩
  · exact lt_of_le_of_lt (hin x hx).2 (ha y hy)
  · intro y hy z hz
    rcases mem_append.1 hz with hz | hz
    · exact lt_of_lt_of_le (hlt y hy a mem_cons_self) (hin z hz).1
    · exact hlt y hy z (mem_cons_of_mem _ hz)

/-- …and what they leave out of the interval is what leaves the set. -/
theorem Separated.cover_replace {S : Finset ℕ}
    (hS : S ⊆ Finset.Ico (lo a) (hi a)) (hm : cover lo hi m = Finset.Ico (lo a) (hi a) \ S) :
    cover lo hi (l1 ++ (m ++ l2)) = cover lo hi (l1 ++ a :: l2) \ S := by
  have hdisj := h.disjoint_middle
  rw [cover_append, disjoint_union_right] at hdisj
  rw [cover_append, cover_append, hm, cover_append, cover_cons, union_sdiff_distrib, union_sdiff_distrib,
    sdiff_eq_self_of_disjoint (disjoint_of_subset_left hS hdisj.1).symm,
    sdiff_eq_self_of_disjoint (disjoint_of_subset_left hS hdisj.2).symm]
end
end IntervalList
end Machinery
