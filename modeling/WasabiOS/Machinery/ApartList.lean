import WasabiOS.Machinery.IntervalList

/-!
# Machinery/ApartList — sets of naturals as unordered lists of intervals that do not touch

The items of a list stand for nonempty intervals `[lo a, hi a)`, in any order.  A list is **apart** if
between any two of its items some number is in no interval; then its items are the maximal runs of
the set it covers.  So an interval inside the set lies in one item (`Apart.exists_item`), and the
list has as many items as the set has runs (`Apart.length_eq`).
-/

namespace Machinery
open List Finset
namespace IntervalList
variable {ι : Type*} (lo hi : ι → ℕ)

/-- Neither overlapping nor touching, whichever of the two comes first. -/
def Gap (a b : ι) : Prop := hi a < lo b ∨ hi b < lo a

/-- Any two items have a gap between them. -/
def Apart (l : List ι) : Prop := l.Pairwise (Gap lo hi)

variable {lo hi} {a b x y : ι} {l l1 l2 m : List ι} {n : ℕ}

theorem Gap.symm (h : Gap lo hi a b) : Gap lo hi b a := Or.symm h

instance : Std.Symm (Gap lo hi) := ⟨fun _ _ h => h.symm⟩

theorem apart_nil : Apart lo hi ([] : List ι) := List.Pairwise.nil

theorem apart_cons : Apart lo hi (a :: l) ↔ (∀ b ∈ l, Gap lo hi a b) ∧ Apart lo hi l := pairwise_cons

/-- An item in the middle may as well be the first. -/
theorem apart_middle : Apart lo hi (l1 ++ a :: l2) ↔ (∀ b ∈ l1 ++ l2, Gap lo hi a b) ∧ Apart lo hi (l1 ++ l2) := by
  rw [← apart_cons]
  exact perm_middle.pairwise_iff fun h => h.symm

theorem cover_middle : cover lo hi (l1 ++ a :: l2) = Finset.Ico (lo a) (hi a) ∪ cover lo hi (l1 ++ l2) := by
  rw [cover_append, cover_cons, cover_append, union_left_comm]

/-- What has a gap to an interval has a gap to every interval inside. -/
theorem Gap.shrink (h : Gap lo hi a b) (hlo : lo a ≤ lo x) (hhi : hi x ≤ hi a) :
    Gap lo hi x b := by
  unfold Gap at h ⊢
  omega

/-- Distinct items have a gap. -/
theorem Apart.gap (h : Apart lo hi l) (ha : a ∈ l) (hb : b ∈ l) (hab : a ≠ b) : Gap lo hi a b := h.forall ha hb hab

section Proper
variable (hproper : ∀ a ∈ l, lo a < hi a)
include hproper

/-- **An interval inside the set lies in one item.** -/
theorem Apart.exists_item (h : Apart lo hi l) {s e : ℕ} (hse : s < e)
    (hsub : Finset.Ico s e ⊆ cover lo hi l) : ∃ x ∈ l, lo x ≤ s ∧ e ≤ hi x := by
  obtain ⟨x, hx, hlo, hhi⟩ := mem_cover.1 (hsub (mem_Ico.2 ⟨le_refl _, hse⟩))
  refine ⟨x, hx, hlo, not_lt.1 fun hlt => ?_⟩
  -- the number right behind `x` would be in another item, which then touches `x`
  obtain ⟨y, hy, hylo, hyhi⟩ := mem_cover.1 (hsub (mem_Ico.2 ⟨hhi.le, hlt⟩ : hi x ∈ Finset.Ico s e))
  have hxy : x ≠ y := by
    rintro rfl
    exact lt_irrefl _ hyhi
  have hpx := hproper x hx
  rcases h.gap hx hy hxy with hgap | hgap
  · omega
  · omega
end Proper

/-- The intervals of an apart list are disjoint. -/
theorem Gap.disjoint (h : Gap lo hi a b) : Disjoint (Finset.Ico (lo a) (hi a)) (Finset.Ico (lo b) (hi b)) := by
  rw [Finset.disjoint_left]
  intro n ha hb
  rw [Finset.mem_Ico] at ha hb
  rcases h with h | h
  · omega
  · omega

theorem disjoint_cover {S : Finset ℕ} (h : ∀ b ∈ l, Disjoint S (Finset.Ico (lo b) (hi b))) :
    Disjoint S (cover lo hi l) := by
  rw [Finset.disjoint_left]
  intro n hS hn
  obtain ⟨b, hb, hlo, hhi⟩ := mem_cover.1 hn
  exact disjoint_left.1 (h b hb) hS (mem_Ico.2 ⟨hlo, hhi⟩)

/-- The size of the set is the sum of the lengths. -/
theorem Apart.card_cover (h : Apart lo hi l) : (cover lo hi l).card = (l.map fun a => hi a - lo a).sum := by
  induction l with
  | nil => rfl
  | cons a l ih =>
    rw [cover_cons, card_union_of_disjoint (disjoint_cover fun b hb => ((apart_cons.1 h).1 b hb).disjoint), Nat.card_Ico, ih (apart_cons.1 h).2]
    rfl

/-! ## Runs -/

/-- The numbers a maximal run of the set starts at. -/
def runStarts (S : Finset ℕ) : Finset ℕ := S.filter fun n => ∀ m ∈ S, m + 1 ≠ n

/-- The number of maximal runs. -/
def runs (S : Finset ℕ) : ℕ := (runStarts S).card

theorem mem_runStarts {S : Finset ℕ} : n ∈ runStarts S ↔ n ∈ S ∧ ∀ m ∈ S, m + 1 ≠ n := mem_filter

/-- Taking out an interval makes at most one more run. -/
theorem runs_sdiff_Ico_le (S : Finset ℕ) (a b : ℕ) : runs (S \ Finset.Ico a b) ≤ runs S + 1 := by
  have hsub : runStarts (S \ Finset.Ico a b) ⊆ insert b (runStarts S) := by
    intro n hn
    obtain ⟨hn, hstart⟩ := mem_runStarts.1 hn
    obtain ⟨hnS, hnI⟩ := mem_sdiff.1 hn
    rw [mem_insert, mem_runStarts]
    by_contra hnot
    push Not at hnot
    obtain ⟨m, hm, hmn⟩ := hnot.2 hnS
    refine hstart m (mem_sdiff.2 ⟨hm, fun hmI => ?_⟩) hmn
    rw [mem_Ico] at hnI hmI
    omega
  exact (card_le_card hsub).trans (card_insert_le _ _)

/-- …and none if the set does not go on past its end. -/
theorem runs_sdiff_Ico_le_of_end {S : Finset ℕ} {a b : ℕ} (h : ∀ m ∈ S, m + 1 = b → b ∉ S) :
    runs (S \ Finset.Ico a b) ≤ runs S := by
  refine card_le_card fun n hn => ?_
  obtain ⟨hn, hstart⟩ := mem_runStarts.1 hn
  obtain ⟨hnS, hnI⟩ := mem_sdiff.1 hn
  refine mem_runStarts.2 ⟨hnS, fun m hm hmn => ?_⟩
  refine hstart m (mem_sdiff.2 ⟨hm, fun hmI => ?_⟩) hmn
  have hnb : n = b := by
    rw [mem_Ico] at hnI hmI
    omega
  exact h m hm (hnb ▸ hmn) (hnb ▸ hnS)

/-- …or starts with it. -/
theorem runs_sdiff_Ico_le_of_start {S : Finset ℕ} {a b : ℕ} (hab : a < b) (h : a ∈ runStarts S) :
    runs (S \ Finset.Ico a b) ≤ runs S := by
  have hsub : runStarts (S \ Finset.Ico a b) ⊆ insert b ((runStarts S).erase a) := by
    intro n hn
    obtain ⟨hn, hstart⟩ := mem_runStarts.1 hn
    obtain ⟨hnS, hnI⟩ := mem_sdiff.1 hn
    rw [mem_insert, mem_erase, mem_runStarts]
    by_contra hnot
    push Not at hnot
    have hna : n ≠ a := fun e => hnI (mem_Ico.2 (by omega))
    obtain ⟨m, hm, hmn⟩ := hnot.2 hna hnS
    refine hstart m (mem_sdiff.2 ⟨hm, fun hmI => ?_⟩) hmn
    rw [mem_Ico] at hnI hmI
    omega
  have hcard := (card_le_card hsub).trans (card_insert_le _ _)
  rwa [card_erase_add_one h] at hcard

/-- **The runs of an apart list are its items.** -/
theorem Apart.runStarts_cover (h : Apart lo hi l) (hproper : ∀ a ∈ l, lo a < hi a) :
    runStarts (cover lo hi l) = (l.map lo).toFinset := by
  ext n
  rw [mem_runStarts, List.mem_toFinset, List.mem_map]
  constructor
  · rintro ⟨hn, hstart⟩
    obtain ⟨x, hx, hlo, hhi⟩ := mem_cover.1 hn
    refine ⟨x, hx, le_antisymm hlo (not_lt.1 fun hlt => ?_)⟩
    exact hstart (n - 1) (mem_cover.2 ⟨x, hx, by omega, by omega⟩) (by omega)
  · rintro ⟨x, hx, rfl⟩
    refine ⟨mem_cover.2 ⟨x, hx, le_refl _, hproper x hx⟩, fun m hm hmx => ?_⟩
    obtain ⟨y, hy, hylo, hyhi⟩ := mem_cover.1 hm
    have hxy : x ≠ y := by
      rintro rfl
      omega
    have hpx := hproper x hx
    rcases h.gap hx hy hxy with hgap | hgap
    · omega
    · omega

theorem Apart.nodup_lo (h : Apart lo hi l) (hproper : ∀ a ∈ l, lo a < hi a) : (l.map lo).Nodup := by
  induction l with
  | nil => exact nodup_nil
  | cons a l ih =>
    obtain ⟨ha, hl⟩ := apart_cons.1 h
    refine nodup_cons.2 ⟨fun hmem => ?_, ih hl fun b hb => hproper b (mem_cons_of_mem _ hb)⟩
    obtain ⟨b, hb, hab⟩ := mem_map.1 hmem
    have hpa := hproper a mem_cons_self
    have hpb := hproper b (mem_cons_of_mem _ hb)
    rcases ha b hb with hgap | hgap
    · omega
    · omega

/-- **An apart list has one item for each run.** -/
theorem Apart.length_eq (h : Apart lo hi l) (hproper : ∀ a ∈ l, lo a < hi a) : l.length = runs (cover lo hi l) := by
  rw [runs, h.runStarts_cover hproper, toFinset_card_of_nodup (h.nodup_lo hproper), length_map]
end IntervalList
end Machinery
