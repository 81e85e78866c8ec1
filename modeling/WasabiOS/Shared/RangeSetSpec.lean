import WasabiOS.Machinery.ApartList
import WasabiOS.Shared.RangeSet

/-!
# Shared/RangeSetSpec — a `RangeSet` is a set of `u64`

A range stands for the numbers from its start to its end, and a set for those of its entries
(`RangeSet.addrs`).  A set is **canonical** if its entries are the maximal runs of what it stands for.

* `insert_eq`, `remove_eq` — both loops end, in the canonical entries of the union and of the
  difference; the only panic left is that those do not fit,
* `sum_eq` — the sum is the size of the set,
* `removeIfExist_eq` — what taking out a contained range leaves, by where it lies in its entry.
-/

open Machinery IntervalList
namespace WasabiOS
open Range List Finset Nat
namespace Range

/-- The first number of the range. -/
def lo (r : Range) : ℕ := r.start.toNat

/-- The number right behind the range. -/
def past (r : Range) : ℕ := r.end_.toNat + 1

/-- The numbers of the range. -/
def addrs (r : Range) : Finset ℕ := Finset.Ico r.lo r.past

/-- The ends are in order. -/
def Proper (r : Range) : Prop := r.lo < r.past

variable {a b r : Range} {n : ℕ}

theorem mem_addrs : n ∈ r.addrs ↔ r.lo ≤ n ∧ n < r.past := mem_Ico

theorem addrs_subset (hlo : b.lo ≤ a.lo) (hpast : a.past ≤ b.past) : a.addrs ⊆ b.addrs :=
  Finset.Ico_subset_Ico hlo hpast

theorem proper_iff : r.Proper ↔ r.start ≤ r.end_ := by
  rw [UInt64.le_iff_toNat_le]
  exact Nat.lt_succ_iff

theorem start_le_iff : a.start ≤ b.start ↔ a.lo ≤ b.lo := UInt64.le_iff_toNat_le

theorem end_le_iff : a.end_ ≤ b.end_ ↔ a.past ≤ b.past := UInt64.le_iff_toNat_le.trans Nat.add_le_add_iff_right.symm

theorem past_le (r : Range) : r.past ≤ 2 ^ 64 := r.end_.toNat_lt

theorem lo_lt (r : Range) : r.lo < 2 ^ 64 := r.start.toNat_lt

theorem ext_nat (hlo : a.lo = b.lo) (hpast : a.past = b.past) : a = b :=
  Range.ext (UInt64.toNat_inj.1 hlo) (UInt64.toNat_inj.1 (Nat.succ.inj hpast))

theorem sorted_of_proper (h : r.Proper) : r.sorted = r :=
  if_neg (by rw [gt_iff_lt, UInt64.lt_iff_toNat_lt, not_lt]; exact Nat.lt_succ_iff.1 h)

/-- **The overlap of two ranges** is their intersection. -/
theorem overlaps_eq_some (ha : a.Proper) (hb : b.Proper) : a.overlaps b = some r ↔
    (a.lo < b.past ∧ b.lo < a.past) ∧ r.lo = max a.lo b.lo ∧ r.past = min a.past b.past := by
  have hiff : (a.start ≤ b.end_ ∧ b.start ≤ a.end_) ↔ a.lo < b.past ∧ b.lo < a.past := by
    simp only [UInt64.le_iff_toNat_le, lo, past, Nat.lt_succ_iff]
  unfold overlaps
  rw [sorted_of_proper ha, sorted_of_proper hb]
  by_cases h : a.start ≤ b.end_ ∧ b.start ≤ a.end_
  · have hbounds : (⟨max a.start b.start, min a.end_ b.end_⟩ : Range).lo = max a.lo b.lo ∧
        (⟨max a.start b.start, min a.end_ b.end_⟩ : Range).past = min a.past b.past :=
      ⟨UInt64.toNat_max _ _, (congrArg Nat.succ (UInt64.toNat_min _ _)).trans (by
        simp only [past]; omega)⟩
    rw [if_pos h, Option.some.injEq]
    refine ⟨fun e => e ▸ ⟨hiff.1 h, hbounds⟩, fun e => ext_nat ?_ ?_⟩
    · exact hbounds.1.trans e.2.1.symm
    · exact hbounds.2.trans e.2.2.symm
  · rw [if_neg h]
    exact ⟨nofun, fun e => absurd (hiff.2 e.1) h⟩

theorem overlaps_isSome (ha : a.Proper) (hb : b.Proper) : (a.overlaps b).isSome ↔ a.lo < b.past ∧ b.lo < a.past := by
  unfold overlaps
  rw [sorted_of_proper ha, sorted_of_proper hb, Option.isSome_ite]
  simp only [UInt64.le_iff_toNat_le, lo, past, Nat.lt_succ_iff]

theorem contains_iff (ha : a.Proper) (hb : b.Proper) : a.contains b ↔ b.lo ≤ a.lo ∧ a.past ≤ b.past := by
  unfold contains
  rw [sorted_of_proper ha, sorted_of_proper hb, Bool.and_eq_true, decide_eq_true_iff,
    decide_eq_true_iff]
  simp only [ge_iff_le, UInt64.le_iff_toNat_le, lo, past, add_le_add_iff_right]
end Range

namespace RangeSet

/-- The entries are proper ranges that neither overlap nor touch. -/
structure Canonical (l : List Range) : Prop where
  proper : ∀ e ∈ l, e.Proper
  apart : Apart lo past l

instance (r : Range) : Decidable r.Proper := decLt _ _

instance (l : List Range) : Decidable (Canonical l) :=
  have : DecidableRel (Gap lo past) := fun _ _ => inferInstanceAs (Decidable (_ ∨ _))
  decidable_of_iff ((∀ e ∈ l, e.Proper) ∧ l.Pairwise (Gap lo past)) ⟨fun h => ⟨h.1, h.2⟩, fun h => ⟨h.proper, h.apart⟩⟩

/-- The numbers in some range of the list. -/
abbrev coverOf (l : List Range) : Finset ℕ := cover lo past l

variable {N : ℕ} {l l1 l2 done todo : List Range} {range ent ent' : Range} {s : RangeSet N}

/-- The numbers in the set. -/
def addrs (s : RangeSet N) : Finset ℕ := coverOf s.entries

theorem canonical_nil : Canonical [] := ⟨nofun, apart_nil⟩

theorem canonical_middle : Canonical (l1 ++ ent :: l2) ↔
    ent.Proper ∧ (∀ e ∈ l1 ++ l2, Gap lo past ent e) ∧ Canonical (l1 ++ l2) := by
  constructor
  · rintro ⟨hproper, hapart⟩
    obtain ⟨hgap, hrest⟩ := apart_middle.1 hapart
    refine ⟨hproper ent mem_append_cons_self, hgap, fun e he => ?_, hrest⟩
    exact hproper e (perm_middle.mem_iff.2 (mem_cons_of_mem _ he))
  · rintro ⟨hent, hgap, hproper, hrest⟩
    refine ⟨fun e he => ?_, apart_middle.2 ⟨hgap, hrest⟩⟩
    rcases mem_cons.1 (perm_middle.mem_iff.1 he) with rfl | he
    · exact hent
    · exact hproper e he

theorem coverOf_middle : coverOf (l1 ++ ent :: l2) = ent.addrs ∪ coverOf (l1 ++ l2) := cover_middle

theorem coverOf_concat : coverOf (l ++ [ent]) = coverOf l ∪ ent.addrs := by rw [coverOf_middle, append_nil, union_comm]

/-- A canonical list has as many entries as the set has runs. -/
theorem Canonical.length_eq (h : Canonical l) : l.length = runs (coverOf l) := h.apart.length_eq h.proper

/-- An entry may shrink. -/
theorem Canonical.shrink (h : Canonical (l1 ++ ent :: l2)) (hproper : ent'.Proper)
    (hlo : ent.lo ≤ ent'.lo) (hpast : ent'.past ≤ ent.past) : Canonical (l1 ++ ent' :: l2) := by
  obtain ⟨-, hgap, hrest⟩ := canonical_middle.1 h
  exact canonical_middle.2 ⟨hproper, fun e he => (hgap e he).shrink hlo hpast, hrest⟩

theorem ofEntries_ok (h : l.length ≤ N) : (ofEntries l : Checked (RangeSet N)) = .ok ⟨l, h⟩ := dif_pos h

theorem ofEntries_eq_ok : (ofEntries l : Checked (RangeSet N)) = .ok s ↔ s.entries = l := by
  unfold ofEntries
  split
  case isTrue h =>
    refine ⟨fun e => by cases e; rfl, fun e => ?_⟩
    cases s
    cases e
    rfl
  case isFalse h => exact ⟨nofun, fun e => absurd s.in_use_le (e ▸ h)⟩

/-! ## Insertion -/

/-- What `insert` merges are the entries without a gap to the range. -/
theorem touches_iff (hr : range.Proper) (he : ent.Proper) : touches range ent = true ↔ ¬ Gap lo past range ent := by
  have hproper : ∀ r : Range, r.Proper → Range.Proper ⟨r.start, U64.saturatingAdd r.end_ 1⟩ := by
    intro r h
    have := r.lo_lt
    simp only [Range.Proper, lo, past, U64.toNat_saturatingAdd, UInt64.toNat_one] at *
    omega
  rw [touches, overlaps_isSome (hproper _ hr) (hproper _ he)]
  have h1 := range.lo_lt
  have h2 := ent.lo_lt
  simp only [Gap, lo, past, U64.toNat_saturatingAdd, UInt64.toNat_one] at *
  omega

/-- The first entry that meets a test, and the entries around it. -/
theorem findIdx?_split {p : Range → Bool} {ii : ℕ} (h : l.findIdx? p = some ii) :
    ∃ l1 ent l2, l = l1 ++ ent :: l2 ∧ p ent ∧ l[ii]? = some ent ∧ delete l ii = .ok (l1 ++ l2) := by
  obtain ⟨hlt, hp, -⟩ := findIdx?_eq_some_iff_getElem.1 h
  refine ⟨l.take ii, l[ii], l.drop (ii + 1), ?_, hp, getElem?_eq_getElem hlt, ?_⟩
  · rw [← drop_eq_getElem_cons hlt, take_append_drop]
  · rw [delete, if_pos hlt, eraseIdx_eq_take_drop_succ]

/-- **The merge loop**: it ends, with a gap between what is left and the merged range. -/
theorem tryMerges_spec {fuel : ℕ} (hfuel : l.length < fuel) (hl : Canonical l)
    (hr : range.Proper) : ∃ l' range', tryMerges fuel l range = .ok (l', range') ∧
      Canonical (l' ++ [range']) ∧ coverOf (l' ++ [range']) = coverOf l ∪ range.addrs := by
  induction fuel generalizing l range with
  | zero => exact absurd hfuel (not_lt_zero _)
  | succ fuel ih =>
    cases hfind : l.findIdx? (touches range) with
    | none =>
      refine ⟨l, range, by rw [tryMerges, hfind]; rfl, ?_, ?_⟩
      · refine canonical_middle.2 ⟨hr, fun e he => ?_, by rwa [append_nil]⟩
        rw [append_nil] at he
        have hno := findIdx?_eq_none_iff.1 hfind e he
        exact not_not.1 fun h => Bool.noConfusion (hno.symm.trans ((touches_iff hr (hl.proper e he)).2 h))
      · exact coverOf_concat
    | some ii =>
      obtain ⟨l1, ent, l2, rfl, htouch, hget, hdelete⟩ := findIdx?_split hfind
      obtain ⟨hent, -, hrest⟩ := canonical_middle.1 hl
      rw [touches_iff hr hent, Gap, not_or, not_lt, not_lt] at htouch
      have hlo : (⟨min range.start ent.start, max range.end_ ent.end_⟩ : Range).lo
          = min range.lo ent.lo := UInt64.toNat_min _ _
      have hpast : (⟨min range.start ent.start, max range.end_ ent.end_⟩ : Range).past = max range.past ent.past :=
        (congrArg Nat.succ (UInt64.toNat_max _ _)).trans (by simp only [past]; omega)
      have hlen : (l1 ++ l2).length < fuel := by
        simp only [length_append, length_cons] at hfuel ⊢
        omega
      have hproper : Range.Proper ⟨min range.start ent.start, max range.end_ ent.end_⟩ := by
        unfold Range.Proper at hr hent ⊢
        omega
      obtain ⟨l', range', hloop, hcanon, hcover⟩ := ih hlen hrest hproper
      refine ⟨l', range', ?_, hcanon, ?_⟩
      · rw [tryMerges, hfind]
        simp only [hget, hdelete]
        exact hloop
      · -- the two ranges leave no gap, so their hull is their union
        rw [hcover, coverOf_middle, union_comm ent.addrs, union_assoc]
        congr 1
        ext n
        simp only [mem_union, mem_addrs, hlo, hpast]
        unfold Range.Proper at hr hent
        omega

/-- **`insert` is union**: it returns the runs of the union, if there is room for them. -/
theorem insert_eq (hs : Canonical s.entries) (hr : range.Proper) :
    ∃ l, Canonical l ∧ coverOf l = s.addrs ∪ range.addrs ∧ s.insert range = ofEntries l := by
  obtain ⟨l', range', hloop, hcanon, hcover⟩ :=
    tryMerges_spec (lt_succ_self s.entries.length) hs hr
  refine ⟨l' ++ [range'], hcanon, hcover, ?_⟩
  rw [insert, if_pos (proper_iff.1 hr), hloop]
  rfl

/-! ## Removal -/

/-- The entry has no number of the range. -/
def Misses (range ent : Range) : Prop := ent.past ≤ range.lo ∨ range.past ≤ ent.lo

theorem addrs_sdiff_of_misses (h : Misses range ent) : ent.addrs \ range.addrs = ent.addrs := by
  rw [Finset.sdiff_eq_self_iff_disjoint, Finset.disjoint_left]
  intro n he hr
  rw [mem_addrs] at he hr
  unfold Misses at h
  omega

theorem cover_sdiff_of_misses (h : ∀ e ∈ l, Misses range e) : coverOf l \ range.addrs = coverOf l := by
  rw [Finset.sdiff_eq_self_iff_disjoint]
  refine (disjoint_cover fun e he => ?_).symm
  exact (Finset.sdiff_eq_self_iff_disjoint.1 (addrs_sdiff_of_misses (h e he))).symm

/-- Two entries that agree outside the range may take each other's place. -/
theorem cover_sdiff_middle (h : ent'.addrs \ range.addrs = ent.addrs \ range.addrs) :
    coverOf (l1 ++ ent' :: l2) \ range.addrs = coverOf (l1 ++ ent :: l2) \ range.addrs := by
  rw [coverOf_middle, coverOf_middle, union_sdiff_distrib, h, union_sdiff_distrib]

/-- The part of an entry above the range. -/
def above (range ent : Range) : Range := ⟨U64.saturatingAdd range.end_ 1, ent.end_⟩

/-- The part of an entry below the range. -/
def below (range ent : Range) : Range := ⟨ent.start, U64.saturatingSub range.start 1⟩

@[simp] theorem above_past : (above range ent).past = ent.past := rfl

@[simp] theorem below_lo : (below range ent).lo = ent.lo := rfl

theorem above_lo (h : range.past < ent.past) : (above range ent).lo = range.past := by
  have hpast := ent.past_le
  have hlo : (above range ent).lo = min range.past (2 ^ 64 - 1) := U64.toNat_saturatingAdd _ _
  omega

theorem below_past (h : ent.lo < range.lo) : (below range ent).past = range.lo := by
  have hpast : (below range ent).past = range.lo - 1 + 1 :=
    congrArg Nat.succ (U64.toNat_saturatingSub _ _)
  omega

/-- What a pass over `l0` may end in. -/
def PassSpec (range : Range) (l0 : List Range) : Pass → Prop
  | .finished l => Canonical l ∧ l.length = l0.length ∧ coverOf l = coverOf l0 \ range.addrs
  | .again l => Canonical l ∧ coverOf l \ range.addrs = coverOf l0 \ range.addrs ∧
    (l.length + 1 = l0.length ∨ l0 ≠ [] ∧ ∀ e ∈ l, Misses range e)

/-- …depends on the entries only through what they leave of the range. -/
theorem PassSpec.congr {p : Pass} (h : PassSpec range l1 p) (hlen : l1.length = l2.length)
    (hcover : coverOf l1 \ range.addrs = coverOf l2 \ range.addrs) : PassSpec range l2 p := by
  have hnil : l1 ≠ [] → l2 ≠ [] := by
    rw [← length_pos_iff, ← length_pos_iff, hlen]
    exact id
  cases p with
  | finished l => exact ⟨h.1, h.2.1.trans hlen, h.2.2.trans hcover⟩
  | again l => exact ⟨h.1, h.2.1.trans hcover, h.2.2.imp (fun e => e.trans hlen) fun e => ⟨hnil e.1, e.2⟩⟩

/-- Splitting an entry around a range inside it: no other entry meets the range. -/
theorem split_spec (hr : range.Proper) (hl : Canonical (l1 ++ ent :: l2)) (hlo : ent.lo < range.lo)
    (hpast : range.past < ent.past) :
    PassSpec range (l1 ++ ent :: l2) (.again (l1 ++ above range ent :: l2 ++ [below range ent])) := by
  obtain ⟨-, hgap, hrest⟩ := canonical_middle.1 hl
  have habove := above_lo hpast
  have hbelow := below_past hlo
  unfold Range.Proper at hr
  have hothers : ∀ e ∈ l1 ++ l2, Misses range e := by
    intro e he
    have hgap := hgap e he
    unfold Gap at hgap
    unfold Misses
    omega
  have hmiss : ∀ e ∈ l1 ++ above range ent :: l2 ++ [below range ent], Misses range e := by
    intro e he
    simp only [List.mem_append, List.mem_cons, List.not_mem_nil, or_false] at he
    rcases he with (he | rfl | he) | rfl
    · exact hothers e (List.mem_append_left _ he)
    · exact Or.inr habove.ge
    · exact hothers e (mem_append_right _ he)
    · exact Or.inl hbelow.le
  refine ⟨?_, ?_, Or.inr ⟨by simp, hmiss⟩⟩
  · have hupper : Canonical (l1 ++ above range ent :: l2) :=
      hl.shrink (by unfold Range.Proper; rw [habove, above_past]; omega) (by omega) (le_refl _)
    refine canonical_middle.2 ⟨?_, fun e he => ?_, by rwa [append_nil]⟩
    · unfold Range.Proper
      rw [hbelow, below_lo]
      omega
    · rw [append_nil] at he
      rcases mem_cons.1 (perm_middle.mem_iff.1 he) with rfl | he
      · exact Or.inl (by omega)
      · exact (hgap e he).shrink (le_refl _) (by omega)
  · rw [cover_sdiff_of_misses hmiss, coverOf_concat, coverOf_middle, coverOf_middle,
      union_sdiff_distrib, cover_sdiff_of_misses hothers, union_right_comm]
    congr 1
    ext n
    simp only [mem_union, mem_sdiff, mem_addrs, habove, hbelow, above_past, below_lo]
    omega

/-- **One pass** trims the entries at the ends of the range, and starts over after it deleted or split
one. -/
theorem subtractPass_spec (hr : range.Proper) (hdone : ∀ e ∈ done, Misses range e)
    (hl : Canonical (done ++ todo)) : PassSpec range (done ++ todo) (subtractPass range done todo) := by
  induction todo generalizing done with
  | nil =>
    rw [append_nil] at hl ⊢
    exact ⟨hl, rfl, (cover_sdiff_of_misses hdone).symm⟩
  | cons ent todo ih =>
    obtain ⟨hent, hgap, hrest⟩ := canonical_middle.1 hl
    -- an entry cut down to what misses the range
    have htrim : ∀ ent' : Range, ent'.Proper → ent.lo ≤ ent'.lo → ent'.past ≤ ent.past →
        Misses range ent' → ent'.addrs \ range.addrs = ent.addrs \ range.addrs →
        PassSpec range (done ++ ent :: todo) (subtractPass range (done ++ [ent']) todo) := by
      intro ent' hproper hlo hpast hmiss hsame
      have hdone' : ∀ e ∈ done ++ [ent'], Misses range e := by
        intro e he
        rcases mem_append.1 he with he | he
        · exact hdone e he
        · exact List.mem_singleton.1 he ▸ hmiss
      have hshape : done ++ [ent'] ++ todo = done ++ ent' :: todo := by rw [List.append_assoc, List.singleton_append]
      have hspec := ih hdone' (hshape ▸ hl.shrink hproper hlo hpast)
      rw [hshape] at hspec
      exact hspec.congr (by simp only [length_append, length_cons]) (cover_sdiff_middle hsame)
    have hoverlap := overlaps_isSome hr hent
    have hcontains := contains_iff hent hr
    unfold Range.Proper at hr hent
    rw [subtractPass]
    split_ifs with h1 h2 h3 h4
    · refine htrim ent hent (le_refl _) (le_refl _) ?_ rfl
      rw [← Option.not_isSome, Bool.not_eq_true', ← Bool.not_eq_true, hoverlap] at h1
      unfold Misses
      omega
    · rw [hcontains] at h2
      have hinside : ent.addrs \ range.addrs = ∅ := sdiff_eq_empty_iff_subset.2 (addrs_subset h2.1 h2.2)
      refine ⟨hrest, ?_, Or.inl (by simp only [length_append, length_cons]; omega)⟩
      rw [coverOf_middle, union_sdiff_distrib, hinside, empty_union]
    all_goals
      rw [Option.isNone_iff_eq_none, ← Option.not_isSome_iff_eq_none, not_not, hoverlap] at h1
      rw [hcontains] at h2
      rw [start_le_iff] at h3
    · have hpiece : (above range ent).lo = range.past := above_lo (by omega)
      refine htrim (above range ent) ?_ (by omega) (le_refl _) (Or.inr hpiece.ge) ?_
      · unfold Range.Proper
        rw [hpiece, above_past]
        omega
      · ext n
        simp only [mem_sdiff, mem_addrs, hpiece, above_past]
        omega
    · rw [ge_iff_le, end_le_iff] at h4
      have hpiece : (below range ent).past = range.lo := below_past (by omega)
      refine htrim (below range ent) ?_ (le_refl _) (by omega) (Or.inl hpiece.le) ?_
      · unfold Range.Proper
        rw [hpiece, below_lo]
        omega
      · ext n
        simp only [mem_sdiff, mem_addrs, hpiece, below_lo]
        omega
    · rw [ge_iff_le, end_le_iff] at h4
      exact split_spec hr hl (by omega) (by omega)

/-- A pass over entries that miss the range changes nothing. -/
theorem subtractPass_of_misses (hr : range.Proper) (hproper : ∀ e ∈ todo, e.Proper)
    (h : ∀ e ∈ todo, Misses range e) : subtractPass range done todo = .finished (done ++ todo) := by
  induction todo generalizing done with
  | nil => rw [subtractPass, append_nil]
  | cons ent todo ih =>
    have hnone : (range.overlaps ent).isNone := by
      rw [Option.isNone_iff_eq_none, ← Option.not_isSome_iff_eq_none, overlaps_isSome hr (hproper ent mem_cons_self)]
      have hmiss := h ent mem_cons_self
      unfold Misses at hmiss
      omega
    rw [subtractPass, if_pos hnone, ih (fun e he => hproper e (mem_cons_of_mem _ he))
      fun e he => h e (mem_cons_of_mem _ he), append_assoc, singleton_append]

/-- **The subtraction loop** ends, in the runs of the difference. -/
theorem trySubtractions_spec {fuel : ℕ} (hfuel : s.entries.length < fuel)
    (hs : Canonical s.entries) (hr : range.Proper) :
    ∃ l, Canonical l ∧ coverOf l = s.addrs \ range.addrs ∧
      trySubtractions range fuel s = ofEntries l := by
  induction fuel generalizing s with
  | zero => exact absurd hfuel (not_lt_zero _)
  | succ fuel ih =>
    have hspec : PassSpec range ([] ++ s.entries) (subtractPass range [] s.entries) := subtractPass_spec hr (by simp) hs
    cases hpass : subtractPass range [] s.entries with
    | finished l =>
      rw [hpass] at hspec
      exact ⟨l, hspec.1, hspec.2.2, by rw [trySubtractions, hpass]⟩
    | again l =>
      rw [hpass] at hspec
      obtain ⟨hl, hcover, hshorter | ⟨hne, hmiss⟩⟩ := hspec
      · -- an entry was deleted
        have hlen : l.length < s.entries.length := by rw [nil_append] at hshorter; omega
        obtain ⟨l', hl', hcover', hloop⟩ :=
          ih (s := ⟨l, hlen.le.trans s.in_use_le⟩) (lt_of_lt_of_le hlen (Nat.lt_succ_iff.1 hfuel)) hl
        refine ⟨l', hl', hcover'.trans hcover, ?_⟩
        rw [trySubtractions, hpass]
        simp only [ofEntries_ok (hlen.le.trans s.in_use_le)]
        exact hloop
      · -- an entry was split, and nothing else meets the range
        refine ⟨l, hl, (cover_sdiff_of_misses hmiss).symm.trans hcover, ?_⟩
        rw [nil_append, ← length_pos_iff] at hne
        obtain ⟨fuel, rfl⟩ : ∃ n, fuel = n + 1 := ⟨fuel - 1, by omega⟩
        have hagain : ∀ s' : RangeSet N, ofEntries l = .ok s' →
            trySubtractions range (fuel + 1) s' = .ok s' := by
          intro s' hs'
          have hentries := ofEntries_eq_ok.1 hs'
          rw [trySubtractions, hentries, subtractPass_of_misses hr hl.proper hmiss, nil_append]
          exact hs'
        rw [trySubtractions, hpass]
        cases hfit : (ofEntries l : Checked (RangeSet N)) with
        | ok s' =>
          simp only [hfit]
          exact hagain s' hfit
        | error f =>
          simp only [hfit]
          rfl

/-- **`remove` is difference**: it returns the runs of the difference, if there is room for them. -/
theorem remove_eq (hs : Canonical s.entries) (hr : range.Proper) :
    ∃ l, Canonical l ∧ coverOf l = s.addrs \ range.addrs ∧ s.remove range = ofEntries l := by
  rw [remove, if_pos (proper_iff.1 hr)]
  exact trySubtractions_spec (lt_succ_self _) hs hr

/-- A removal that returns. -/
theorem remove_eq_ok {s' : RangeSet N} (hs : Canonical s.entries) (hr : range.Proper)
    (h : s.remove range = .ok s') : Canonical s'.entries ∧ s'.addrs = s.addrs \ range.addrs := by
  obtain ⟨l, hl, hcover, hremove⟩ := remove_eq hs hr
  rw [hremove, ofEntries_eq_ok] at h
  exact ⟨h ▸ hl, by rw [addrs, h, hcover]⟩

/-! ## Removal of a contained range -/

/-- The set goes on on both sides of the range. -/
def Enclosed (S : Finset ℕ) (range : Range) : Prop := 0 < range.lo ∧ range.lo - 1 ∈ S ∧ range.past ∈ S

instance (S : Finset ℕ) (range : Range) : Decidable (Enclosed S range) := inferInstanceAs (Decidable (_ ∧ _ ∧ _))

/-- What `remove_if_exist` takes out of the set `S`: all of the range, but for its first number if the
set goes on on both sides. -/
def taken (S : Finset ℕ) (range : Range) : Finset ℕ :=
  if Enclosed S range then range.addrs.erase range.lo else range.addrs

theorem exists_taken_eq_Ico (S : Finset ℕ) (range : Range) : ∃ lo, taken S range = Finset.Ico lo range.past := by
  unfold taken
  split
  case isTrue =>
    refine ⟨range.lo + 1, ?_⟩
    ext n
    rw [mem_erase, mem_addrs, mem_Ico]
    omega
  case isFalse => exact ⟨range.lo, rfl⟩

/-- Entries that do not contain the range are passed over. -/
theorem removeIfExistFrom_skip (hr : range.Proper) (hproper : ∀ e ∈ l, e.Proper)
    (h : ∀ e ∈ l, ¬ (e.lo ≤ range.lo ∧ range.past ≤ e.past)) :
    (removeIfExistFrom range done (l ++ todo) : Checked (Bool × RangeSet N))
      = removeIfExistFrom range (done ++ l) todo := by
  induction l generalizing done with
  | nil => rw [nil_append, append_nil]
  | cons e l ih =>
    have hno := h e mem_cons_self
    have hne : range ≠ e := by
      rintro rfl
      exact hno ⟨le_refl _, le_refl _⟩
    have hcontains : (!range.contains e) = true := by
      rw [Bool.not_eq_true', ← Bool.not_eq_true, contains_iff hr (hproper e mem_cons_self)]
      exact hno
    rw [cons_append, removeIfExistFrom, if_neg hne, if_pos hcontains, ih (fun e he => hproper e (mem_cons_of_mem _ he))
        fun e he => h e (mem_cons_of_mem _ he), append_assoc, singleton_append]

/-- A range that no entry contains is not inside the set. -/
theorem Canonical.subset_iff (hl : Canonical l) (hr : range.Proper) :
    range.addrs ⊆ coverOf l ↔ ∃ e ∈ l, e.lo ≤ range.lo ∧ range.past ≤ e.past := by
  constructor
  · exact fun h => hl.apart.exists_item hl.proper hr h
  · rintro ⟨e, he, hlo, hpast⟩ n hn
    rw [mem_addrs] at hn
    exact mem_cover.2 ⟨e, he, by omega, by omega⟩

section
variable (hl : Canonical (l1 ++ ent :: l2))
include hl

/-- The set goes on on both sides of a contained range exactly if its entry does. -/
theorem Canonical.enclosed_iff (hr : range.Proper) (hlo : ent.lo ≤ range.lo) (hpast : range.past ≤ ent.past) :
    Enclosed (coverOf (l1 ++ ent :: l2)) range ↔ ent.lo < range.lo ∧ range.past < ent.past := by
  obtain ⟨-, hgap, -⟩ := canonical_middle.1 hl
  unfold Range.Proper at hr
  have hmem : ∀ n, n + 1 = ent.lo ∨ n = ent.past → n ∉ coverOf (l1 ++ ent :: l2) := by
    intro n hn hmem
    obtain ⟨e, he, helo, hepast⟩ := mem_cover.1 hmem
    rcases mem_cons.1 (perm_middle.mem_iff.1 he) with rfl | he
    · omega
    · have hgap := hgap e he
      unfold Gap at hgap
      omega
  have hin : ∀ n, ent.lo ≤ n → n < ent.past → n ∈ coverOf (l1 ++ ent :: l2) := fun n h h' =>
    mem_cover.2 ⟨ent, mem_append_cons_self, h, h'⟩
  constructor
  · rintro ⟨hpos, hbefore, hbehind⟩
    refine ⟨lt_of_le_of_ne hlo fun h => ?_, lt_of_le_of_ne hpast fun h => ?_⟩
    · exact hmem _ (Or.inl (by omega)) hbefore
    · exact hmem _ (Or.inr h) hbehind
  · rintro ⟨hlo, hpast⟩
    exact ⟨by omega, hin _ (by omega) (by omega), hin _ (by omega) hpast⟩

/-- Taking numbers out of one entry takes them out of the set. -/
theorem Canonical.cover_sdiff {T : Finset ℕ} (hT : T ⊆ ent.addrs) :
    coverOf (l1 ++ ent :: l2) \ T = (ent.addrs \ T) ∪ coverOf (l1 ++ l2) := by
  obtain ⟨-, hgap, -⟩ := canonical_middle.1 hl
  have hdisj : Disjoint T (coverOf (l1 ++ l2)) :=
    disjoint_cover fun e he => disjoint_of_subset_left hT (hgap e he).disjoint
  rw [coverOf_middle, union_sdiff_distrib, sdiff_eq_self_of_disjoint hdisj.symm]

/-- A whole entry leaves the set. -/
theorem Canonical.erase : coverOf (l1 ++ l2) = coverOf (l1 ++ ent :: l2) \ ent.addrs := by
  rw [hl.cover_sdiff (Finset.Subset.refl _), Finset.sdiff_self, Finset.empty_union]

/-- The lower part of an entry leaves the set. -/
theorem Canonical.above (hr : range.Proper) (hlo : range.lo = ent.lo) (hpast : range.past < ent.past) :
    Canonical (l1 ++ above range ent :: l2) ∧
      coverOf (l1 ++ RangeSet.above range ent :: l2) = coverOf (l1 ++ ent :: l2) \ range.addrs := by
  have hpiece := above_lo hpast
  unfold Range.Proper at hr
  refine ⟨hl.shrink ?_ (by omega) (le_refl _), ?_⟩
  · unfold Range.Proper
    rw [hpiece, above_past]
    exact hpast
  · rw [hl.cover_sdiff (addrs_subset hlo.ge hpast.le), coverOf_middle]
    congr 1
    ext n
    simp only [mem_sdiff, mem_addrs, hpiece, above_past]
    omega

/-- The upper part of an entry leaves the set. -/
theorem Canonical.below (hr : range.Proper) (hlo : ent.lo < range.lo) (hpast : range.past = ent.past) :
    Canonical (l1 ++ below range ent :: l2) ∧
      coverOf (l1 ++ RangeSet.below range ent :: l2) = coverOf (l1 ++ ent :: l2) \ range.addrs := by
  have hpiece := below_past hlo
  unfold Range.Proper at hr
  refine ⟨hl.shrink ?_ (le_refl _) (by omega), ?_⟩
  · unfold Range.Proper
    rw [hpiece, below_lo]
    exact hlo
  · rw [hl.cover_sdiff (addrs_subset hlo.le hpast.le), coverOf_middle]
    congr 1
    ext n
    simp only [mem_sdiff, mem_addrs, hpiece, below_lo]
    omega
end

/-- Removing the front of an entry never needs room. -/
theorem remove_front (hs : Canonical s.entries) (hr : range.Proper) (hent : ent ∈ s.entries)
    (hlo : range.lo = ent.lo) (hpast : range.past ≤ ent.past) :
    ∃ s', s.remove range = .ok s' ∧ Canonical s'.entries ∧ s'.addrs = s.addrs \ range.addrs := by
  obtain ⟨l, hl, hcover, hremove⟩ := remove_eq hs hr
  -- the entries without the front are no more than before
  have hroom : l.length ≤ s.entries.length := by
    obtain ⟨l1, l2, hsplit⟩ := append_of_mem hent
    unfold addrs at hcover
    rw [hsplit] at hs hcover ⊢
    rcases eq_or_lt_of_le hpast with hpast | hpast
    · have hsame : range = ent := ext_nat hlo hpast
      rw [hsame, ← hs.erase] at hcover
      rw [hl.length_eq, hcover, ← (canonical_middle.1 hs).2.2.length_eq]
      simp only [length_append, length_cons]
      omega
    · obtain ⟨hl', hcover'⟩ := hs.above hr hlo hpast
      rw [hl.length_eq, hcover, ← hcover', ← hl'.length_eq]
      simp only [length_append, length_cons, le_refl]
  have hfit := hroom.trans s.in_use_le
  exact ⟨⟨l, hfit⟩, hremove.trans (ofEntries_ok hfit), hl, hcover⟩

/-- `range.end + 1`, where the entry goes on behind the range. -/
theorem add_one_eq_above (h : range.past < ent.past) : U64.add range.end_ 1 = .ok (above range ent).start := by
  rw [U64.add_eq_ok]
  exact above_lo h

/-- `range.start - 1`, where the entry starts before the range. -/
theorem sub_one_eq_below (h : ent.lo < range.lo) : U64.sub range.start 1 = .ok (below range ent).end_ := by
  have hpast := below_past h
  rw [U64.sub_eq_ok, UInt64.toNat_one]
  unfold past lo at *
  omega

/-- …at the entry that contains the range. -/
theorem removeIfExistFrom_eq (hl : Canonical (l1 ++ ent :: l2)) (hlen : (l1 ++ ent :: l2).length ≤ N)
    (hr : range.lo + 1 < range.past) (hlo : ent.lo ≤ range.lo) (hpast : range.past ≤ ent.past) :
    ∃ l, Canonical l ∧ coverOf l = coverOf (l1 ++ ent :: l2) \ taken (coverOf (l1 ++ ent :: l2)) range ∧
      (removeIfExistFrom range l1 (ent :: l2) : Checked (Bool × RangeSet N)) = do return (true, ← ofEntries l) := by
  have hproper : range.Proper := lt_of_succ_lt hr
  obtain ⟨hent, -, hrest⟩ := canonical_middle.1 hl
  have henclosed := hl.enclosed_iff hproper hlo hpast
  have hcontains : ¬ (!range.contains ent) = true := by
    rw [Bool.not_eq_true', Bool.not_eq_false, contains_iff hproper hent]
    exact ⟨hlo, hpast⟩
  -- unless the entry goes on on both sides, all of the range leaves the set
  have hall : ¬ (ent.lo < range.lo ∧ range.past < ent.past) →
      taken (coverOf (l1 ++ ent :: l2)) range = range.addrs := fun h =>
    if_neg fun he => h (henclosed.1 he)
  rw [removeIfExistFrom]
  by_cases heq : range = ent
  · refine ⟨l1 ++ l2, hrest, ?_, by rw [if_pos heq]⟩
    rw [hall (fun h => by rw [heq] at h; exact lt_irrefl _ h.1), hl.erase, heq]
  rw [if_neg heq, if_neg hcontains]
  by_cases hstart : range.start = ent.start
  · have hslo : range.lo = ent.lo := congrArg UInt64.toNat hstart
    have hspast : range.past < ent.past := lt_of_le_of_ne hpast fun h => heq (ext_nat hslo h)
    have hassert : range.end_ < ent.end_ ∧ range.end_ > ent.start := by
      simp only [gt_iff_lt, UInt64.lt_iff_toNat_lt]
      unfold past lo at *
      omega
    obtain ⟨hl', hcover⟩ := hl.above hproper hslo hspast
    refine ⟨l1 ++ above range ent :: l2, hl', ?_, ?_⟩
    · rw [hcover, hall (fun h => by omega)]
    · rw [if_pos hstart, if_pos hassert, add_one_eq_above hspast]
      rfl
  rw [if_neg hstart]
  have hslo : ent.lo < range.lo := lt_of_le_of_ne hlo fun h => hstart (UInt64.toNat_inj.1 h.symm)
  have hassert : range.start > ent.start ∧ range.start < ent.end_ := by
    simp only [gt_iff_lt, UInt64.lt_iff_toNat_lt]
    unfold past lo at *
    omega
  by_cases hend : range.end_ = ent.end_
  · have hspast : range.past = ent.past := congrArg (fun e => e.toNat + 1) hend
    obtain ⟨hl', hcover⟩ := hl.below hproper hslo hspast
    refine ⟨l1 ++ below range ent :: l2, hl', ?_, ?_⟩
    · rw [hcover, hall (fun h => by omega)]
    · rw [if_pos hend, if_pos hassert, sub_one_eq_below hslo]
      rfl
  have hspast : range.past < ent.past := lt_of_le_of_ne hpast fun h => hend (UInt64.toNat_inj.1 (Nat.succ.inj h))
  have hassert' : range.end_ > ent.start ∧ range.end_ < ent.end_ := by
    simp only [gt_iff_lt, UInt64.lt_iff_toNat_lt]
    unfold past lo at *
    omega
  -- the entry is cut behind the first number of the range, and what is above the range put back
  have hpiece := above_lo hspast
  have hcut : (⟨ent.start, range.start⟩ : Range).past = range.lo + 1 := rfl
  have hlen' : (l1 ++ ⟨ent.start, range.start⟩ :: l2).length ≤ N := by
    simpa only [length_append, length_cons] using hlen
  have hcanon : Canonical (l1 ++ ⟨ent.start, range.start⟩ :: l2) :=
    hl.shrink (lt_succ_of_lt hslo) (le_refl _) (by omega)
  have habove : (above range ent).Proper := by
    unfold Range.Proper
    rw [hpiece, above_past]
    exact hspast
  obtain ⟨l, hl', hcover, hinsert⟩ := insert_eq (s := ⟨_, hlen'⟩) hcanon habove
  refine ⟨l, hl', ?_, ?_⟩
  · rw [hcover, taken, if_pos (henclosed.2 ⟨hslo, hspast⟩),
      hl.cover_sdiff ((erase_subset _ _).trans (addrs_subset hlo hpast)), addrs,
      coverOf_middle,
      union_right_comm]
    congr 1
    ext n
    simp only [mem_union, mem_sdiff, mem_erase, mem_addrs, hpiece, above_past, hcut]
    have hcutlo : (⟨ent.start, range.start⟩ : Range).lo = ent.lo := rfl
    omega
  · rw [if_neg hend, if_pos hassert, ofEntries_ok hlen']
    simp only [ok_bind, if_pos hassert', add_one_eq_above hspast]
    exact congrArg (fun c => c >>= fun s => pure (true, s)) hinsert

/-- **`remove_if_exist`** does nothing to a range that is not inside the set, and otherwise takes it out,
but for its first number if the set goes on on both sides. -/
theorem removeIfExist_eq (hs : Canonical s.entries) (hr : range.lo + 1 < range.past) :
    (¬ range.addrs ⊆ s.addrs ∧ s.removeIfExist range = .ok (false, s)) ∨
    (range.addrs ⊆ s.addrs ∧ ∃ l, Canonical l ∧ coverOf l = s.addrs \ taken s.addrs range ∧
      s.removeIfExist range = do return (true, ← ofEntries l)) := by
  have hproper : range.Proper := lt_of_succ_lt hr
  by_cases hin : range.addrs ⊆ s.addrs
  · refine Or.inr ⟨hin, ?_⟩
    obtain ⟨ent, hent, hlo, hpast⟩ := (hs.subset_iff hproper).1 hin
    obtain ⟨l1, l2, hsplit⟩ := append_of_mem hent
    have hlen := s.in_use_le
    unfold removeIfExist addrs
    rw [hsplit] at hs hlen ⊢
    -- no entry before it contains the range as well
    have hskip : ∀ e ∈ l1, ¬ (e.lo ≤ range.lo ∧ range.past ≤ e.past) := by
      intro e he hin
      have hgap := (canonical_middle.1 hs).2.1 e (mem_append_left _ he)
      unfold Gap at hgap
      omega
    rw [removeIfExistFrom_skip hproper (fun e he => hs.proper e (mem_append_left _ he)) hskip, nil_append]
    exact removeIfExistFrom_eq hs hlen hr hlo hpast
  · refine Or.inl ⟨hin, ?_⟩
    have hskip : ∀ e ∈ s.entries, ¬ (e.lo ≤ range.lo ∧ range.past ≤ e.past) := fun e he h =>
      hin ((hs.subset_iff hproper).2 ⟨e, he, h⟩)
    have hpass : (removeIfExistFrom range [] (s.entries ++ []) : Checked (Bool × RangeSet N))
        = removeIfExistFrom range ([] ++ s.entries) [] :=
      removeIfExistFrom_skip hproper hs.proper hskip
    rw [append_nil, nil_append] at hpass
    rw [removeIfExist, hpass, removeIfExistFrom, ofEntries_ok s.in_use_le]
    rfl

/-- **`remove_if_exist`** returns if an entry is unused. -/
theorem removeIfExist_returns (hs : Canonical s.entries) (hr : range.lo + 1 < range.past)
    (hlen : s.len < N) : ∃ r, s.removeIfExist range = .ok r := by
  rcases removeIfExist_eq hs hr with ⟨-, heq⟩ | ⟨-, l, hl, hcover, heq⟩
  · exact ⟨_, heq⟩
  obtain ⟨lo, htaken⟩ := exists_taken_eq_Ico s.addrs range
  have hfit : l.length ≤ N := by
    rw [hl.length_eq, hcover, htaken]
    refine (runs_sdiff_Ico_le _ _ _).trans ?_
    rw [addrs, ← hs.length_eq]
    exact hlen
  rw [heq, ofEntries_ok hfit]
  exact ⟨_, rfl⟩

/-! ## The sum -/

/-- The fold adds up the lengths, as long as no length is `2 ^ 64`. -/
theorem sumFrom_eq {acc : UInt64} (hproper : ∀ e ∈ l, e.Proper)
    (hfit : acc.toNat + (l.map fun e => e.past - e.lo).sum < 2 ^ 64) :
    ∃ n, sumFrom acc l = .ok (some n) ∧ n.toNat = acc.toNat + (l.map fun e => e.past - e.lo).sum := by
  induction l generalizing acc with
  | nil => exact ⟨acc, rfl, rfl⟩
  | cons e l ih =>
    rw [List.map_cons, List.sum_cons] at hfit ⊢
    have hp := hproper e List.mem_cons_self
    have hle := proper_iff.1 hp
    have hwidth : (e.end_ - e.start).toNat + 1 = e.past - e.lo := by
      rw [UInt64.toNat_sub_of_le _ _ hle]
      rw [UInt64.le_iff_toNat_le] at hle
      unfold past lo
      omega
    have hone : (e.end_ - e.start).toNat + (1 : UInt64).toNat < 2 ^ 64 := by
      rw [UInt64.toNat_one]
      omega
    have hcount : (e.end_ - e.start + 1).toNat = e.past - e.lo := (U64.toNat_add_of_lt hone).trans hwidth
    have hacc : acc.toNat + (e.end_ - e.start + 1).toNat < 2 ^ 64 := by omega
    have hsum : (acc + (e.end_ - e.start + 1)).toNat = acc.toNat + (e.past - e.lo) := by
      rw [U64.toNat_add_of_lt hacc, hcount]
    have hrest : (acc + (e.end_ - e.start + 1)).toNat + (l.map fun e => e.past - e.lo).sum < 2 ^ 64 := by omega
    obtain ⟨n, hn, hval⟩ := ih (fun e he => hproper e (mem_cons_of_mem _ he)) hrest
    refine ⟨n, ?_, by omega⟩
    simp only [sumFrom, U64.sub_ok hle, ok_bind, U64.checkedAdd, if_pos hone, U64.add_ok hacc]
    exact hn

/-- The set is all of `u64`. -/
def Full (S : Finset ℕ) : Prop := S = Finset.range (2 ^ 64)

theorem coverOf_subset : coverOf l ⊆ Finset.range (2 ^ 64) := by
  intro n hn
  obtain ⟨e, -, -, hpast⟩ := mem_cover.1 hn
  exact Finset.mem_range.2 (lt_of_lt_of_le hpast e.past_le)

/-- Only one canonical set of entries covers everything. -/
theorem Canonical.eq_singleton_of_full (hl : Canonical l) (hfull : Full (coverOf l)) :
    ∃ e, l = [e] ∧ e.lo = 0 ∧ e.past = 2 ^ 64 := by
  have hsub : Finset.Ico 0 (2 ^ 64) ⊆ coverOf l := by rw [show coverOf l = _ from hfull, range_eq_Ico]
  obtain ⟨e, he, hlo, hpast⟩ := hl.apart.exists_item hl.proper (by decide) hsub
  have hpast : e.past = 2 ^ 64 := le_antisymm e.past_le hpast
  obtain ⟨l1, l2, rfl⟩ := append_of_mem he
  -- no other range has a gap to this one
  have hnone : l1 ++ l2 = [] := eq_nil_iff_forall_not_mem.2 fun x hx => by
    have hlt := x.lo_lt
    have hgap := (canonical_middle.1 hl).2.1 x hx
    unfold Gap at hgap
    omega
  obtain ⟨rfl, rfl⟩ := append_eq_nil_iff.1 hnone
  exact ⟨e, rfl, le_zero.1 hlo, hpast⟩

/-- **The sum is the size of the set**, and there is none exactly for the full set. -/
theorem sum_eq (hs : Canonical s.entries) : (Full s.addrs ∧ s.sum = .ok none) ∨
      (¬ Full s.addrs ∧ ∃ n, s.sum = .ok (some n) ∧ n.toNat = s.addrs.card) := by
  by_cases hfull : Full s.addrs
  · refine Or.inl ⟨hfull, ?_⟩
    obtain ⟨e, he, hlo, hpast⟩ := hs.eq_singleton_of_full hfull
    have hle := proper_iff.1 (hs.proper e (by rw [he]; exact List.mem_singleton_self e))
    have hover : U64.checkedAdd (e.end_ - e.start) 1 = none := by
      rw [U64.checkedAdd_eq_none, UInt64.toNat_sub_of_le _ _ hle, UInt64.toNat_one]
      unfold lo past at *
      omega
    simp only [sum, he, sumFrom, U64.sub_ok hle, ok_bind, hover]
    rfl
  · refine Or.inr ⟨hfull, ?_⟩
    have hcard : s.addrs.card = _ := hs.apart.card_cover
    have hlt : s.addrs.card < 2 ^ 64 := by
      have hss := Finset.card_lt_card (Finset.ssubset_iff_subset_ne.2 ⟨coverOf_subset, hfull⟩)
      rwa [Finset.card_range] at hss
    have hfit : (0 : UInt64).toNat + (s.entries.map fun e => e.past - e.lo).sum < 2 ^ 64 := by
      rw [UInt64.toNat_zero, zero_add, ← hcard]
      exact hlt
    obtain ⟨n, hn, hval⟩ := sumFrom_eq hs.proper hfit
    exact ⟨n, hn, hval.trans (by rw [UInt64.toNat_zero, zero_add, hcard])⟩
end RangeSet

namespace RangeSet

/-! ## Sequences of calls -/

variable {N : ℕ} {s : RangeSet N}

/-- A call that changes the set. -/
inductive SetCall where
  | insert (range : Range)
  | remove (range : Range)
  deriving DecidableEq, Repr

namespace SetCall

def range : SetCall → Range
  | insert r => r
  | remove r => r

/-- The call on a `RangeSet`. -/
def run (c : SetCall) (s : RangeSet N) : Checked (RangeSet N) :=
  match c with
  | insert r => s.insert r
  | remove r => s.remove r

/-- The call on the set of numbers. -/
def apply (c : SetCall) (S : Finset ℕ) : Finset ℕ :=
  match c with
  | insert r => S ∪ r.addrs
  | remove r => S \ r.addrs

/-- **One call** computes the runs of what it does to the set of numbers. -/
theorem run_eq {c : SetCall} (hs : Canonical s.entries) (hr : c.range.Proper) :
    ∃ l, Canonical l ∧ coverOf l = c.apply s.addrs ∧ c.run s = ofEntries l := by
  cases c with
  | insert r => exact insert_eq hs hr
  | remove r => exact remove_eq hs hr
end SetCall

/-- The calls, one after another, on the empty set. -/
def runCalls (N : ℕ) (calls : List SetCall) : Checked (RangeSet N) := do
  calls.foldlM (fun s c => c.run s) (← new N)

/-- The set of numbers the calls leave. -/
def contents (calls : List SetCall) : Finset ℕ := calls.foldl (fun S c => c.apply S) ∅

theorem contents_concat (calls : List SetCall) (c : SetCall) : contents (calls ++ [c]) = c.apply (contents calls) :=
  foldl_concat _ _ _ _

theorem runCalls_concat (N : ℕ) (calls : List SetCall) (c : SetCall) :
    runCalls N (calls ++ [c]) = runCalls N calls >>= c.run := by
  unfold runCalls
  rw [bind_assoc]
  congr 1
  funext s
  rw [foldlM_append]
  congr 1
  funext s
  exact bind_pure _

/-- **A `RangeSet` is the set of numbers its calls make it**, for all calls with ordered ends that
never need more than `N` runs: every call returns, the entries are the runs of the set, and `sum` is
its size. -/
theorem runCalls_contents (hN : N ≤ 2 ^ 32 - 1) (calls : List SetCall)
    (hshape : ∀ c ∈ calls, c.range.start ≤ c.range.end_)
    (hfit : ∀ k ≤ calls.length, runs (contents (calls.take k)) ≤ N) :
    ∃ s, runCalls N calls = .ok s ∧ s.addrs = contents calls ∧ Canonical s.entries ∧
      ∃ o, s.sum = .ok o ∧ (o = none ↔ s.addrs = Finset.range (2 ^ 64)) ∧ ∀ n ∈ o, n.toNat = s.addrs.card := by
  have hrun : ∃ s, runCalls N calls = .ok s ∧ s.addrs = contents calls ∧ Canonical s.entries := by
    induction calls using reverseRecOn with
    | nil =>
      refine ⟨⟨[], zero_le N⟩, ?_, rfl, canonical_nil⟩
      simp only [runCalls, new, if_pos hN, ofEntries_ok (l := []) (zero_le N), ok_bind]
      rfl
    | append_singleton calls c ih =>
      obtain ⟨s, hrun, haddrs, hs⟩ := ih (fun c hc => hshape c (mem_append_left _ hc)) (fun k hk => by
          have h := hfit k (hk.trans (by rw [length_append]; exact le_add_right _ _))
          rwa [take_append_of_le_length hk] at h)
      have hlast := hshape c mem_append_cons_self
      obtain ⟨l, hl, hcover, hcall⟩ := SetCall.run_eq hs (proper_iff.2 hlast)
      rw [haddrs, ← contents_concat] at hcover
      have hroom : l.length ≤ N := by
        have hend := hfit (calls ++ [c]).length (le_refl _)
        rw [take_length] at hend
        rwa [hl.length_eq, hcover]
      refine ⟨⟨l, hroom⟩, ?_, hcover, hl⟩
      rw [runCalls_concat, hrun, ok_bind, hcall, ofEntries_ok hroom]
  obtain ⟨s, hrun, haddrs, hs⟩ := hrun
  refine ⟨s, hrun, haddrs, hs, ?_⟩
  rcases sum_eq hs with ⟨hfull, hsum⟩ | ⟨hfull, n, hsum, hn⟩
  · exact ⟨none, hsum, iff_of_true rfl hfull, fun _ h => absurd h (Option.not_mem_none _)⟩
  · refine ⟨some n, hsum, iff_of_false (Option.some_ne_none n) hfull, fun m hm => ?_⟩
    rw [← Option.some.inj (Option.mem_def.1 hm), hn]

/-- A hole is cut that runs over the gap between two ranges. -/
theorem runCalls_contents_hole : ∃ s, runCalls 3 [.insert ⟨0, 3⟩, .insert ⟨6, 7⟩, .remove ⟨2, 6⟩] = .ok s ∧
      s.addrs = contents [.insert ⟨0, 3⟩, .insert ⟨6, 7⟩, .remove ⟨2, 6⟩] ∧ Canonical s.entries ∧
      ∃ o, s.sum = .ok o ∧ (o = none ↔ s.addrs = Finset.range (2 ^ 64)) ∧ ∀ n ∈ o, n.toNat = s.addrs.card :=
  runCalls_contents (by decide) [.insert ⟨0, 3⟩, .insert ⟨6, 7⟩, .remove ⟨2, 6⟩] (by decide) (by decide)
end RangeSet
end WasabiOS
