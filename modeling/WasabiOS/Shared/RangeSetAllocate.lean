import WasabiOS.Shared.RangeSetSpec

/-!
# Shared/RangeSetAllocate — what `allocate_prefer` finds, and what it takes

An entry **fits** a request if it has an aligned run of that size; the first one starts at the first
aligned number of the entry.  `allocationSearch_spec` says what the search over the entries ends in:

* an entry whose first aligned run would end past `u64::MAX` ends the search without a result,
* the first entry with a run inside a region serves the request from there,
* otherwise an entry that fits with the least padding serves it from its front.

Soundness (`allocatePrefer_sound`) and the exact completeness condition (`allocateComplete_iff`) are read
off it.
-/

open Machinery IntervalList
namespace WasabiOS
open U64 Range List
namespace RangeSet

/-- The numbers `[p, p + size)` are an aligned run inside `[lo, past)`. -/
def AlignedRun (size align lo past p : ℕ) : Prop := align ∣ p ∧ lo ≤ p ∧ p + size ≤ past

/-- The end of the first aligned run from `lo` on is no `u64`. -/
def Overflows (size align lo : ℕ) : Prop := 2 ^ 64 < alignUp align lo + size

/-- The first aligned run from `lo` on ends before `past`. -/
def Fits (size align lo past : ℕ) : Prop := alignUp align lo + size ≤ past

instance (size align lo : ℕ) : Decidable (Overflows size align lo) := Nat.decLt _ _

instance (size align lo past : ℕ) : Decidable (Fits size align lo past) := Nat.decLe _ _

/-- There is an aligned run exactly if the first one fits. -/
theorem exists_alignedRun_iff {size align lo past : ℕ} (halign : 0 < align) :
    (∃ p, AlignedRun size align lo past p) ↔ Fits size align lo past := by
  constructor
  · rintro ⟨p, hp, hlo, hpast⟩
    exact (Nat.add_le_add_right (alignUp_le halign hlo hp) size).trans hpast
  · exact fun h => ⟨_, dvd_alignUp halign, le_alignUp, h⟩

/-- An allocation inside an overlap. -/
structure Allocation.Inside (a : Allocation) (size align lo past : ℕ) : Prop where
  base : a.base = a.ptr
  run : AlignedRun size align lo past a.ptr.toNat
  end_ : a.end_.toNat + 1 = a.ptr.toNat + size

/-- An allocation at the front of an entry, padding included. -/
structure Allocation.AtFront (a : Allocation) (size align : ℕ) (ent : Range) : Prop where
  base : a.base = ent.start
  ptr : a.ptr.toNat = alignUp align ent.lo
  end_ : a.end_.toNat + 1 = a.ptr.toNat + size
  fits : Fits size align ent.lo ent.past

/-- The best allocation at the front of an entry of `l`. -/
def Best (size align : ℕ) (l : List Range) : Option Allocation → Prop
  | none => ∀ e ∈ l, ¬ Fits size align e.lo e.past
  | some a => ∃ e ∈ l, a.AtFront size align e ∧ ∀ e' ∈ l, Fits size align e'.lo e'.past →
      alignUp align e.lo - e.lo ≤ alignUp align e'.lo - e'.lo

theorem not_gt_USIZE_MAX (a b : UInt64) : ¬ (a > USIZE_MAX ∨ b > USIZE_MAX) := by
  have ha := toNat_le a
  have hb := toNat_le b
  simp only [USIZE_MAX, gt_iff_lt, UInt64.lt_iff_toNat_lt, toNat_MAX]
  omega

variable {size align alignmask : UInt64} {k : ℕ} {ent overlap : Range} {regions l1 l2 : List Range}
  {request : RegionRequest} {best : Option Allocation}

/-- What the loop over the regions ends in. -/
def RegionSpec (size align : ℕ) (ent : Range) (regions : List Range) : RegionSearch → Prop
  | .hit a => ∃ r ∈ regions, a.Inside size align (max ent.lo r.lo) (min ent.past r.past)
  | .miss => ∀ r ∈ regions, ¬ Fits size align (max ent.lo r.lo) (min ent.past r.past)
  | .skip => False

theorem RegionSpec.cons {size align : ℕ} {region : Range} {o : RegionSearch} (h : RegionSpec size align ent regions o)
    (hno : ¬ Fits size align (max ent.lo region.lo) (min ent.past region.past)) :
    RegionSpec size align ent (region :: regions) o := by
  cases o with
  | hit a =>
    obtain ⟨r, hr, ha⟩ := h
    exact ⟨r, mem_cons_of_mem _ hr, ha⟩
  | miss =>
    intro r hr
    rcases mem_cons.1 hr with rfl | hr
    · exact hno
    · exact h r hr
  | skip => exact h

/-- A range with no number has no room. -/
theorem not_fits_of_le {size align lo past : ℕ} (hsize : 1 ≤ size) (h : past ≤ lo) : ¬ Fits size align lo past := by
  have hle := le_alignUp (n := align) (x := lo)
  unfold Fits
  omega

/-- The start of the first aligned run of an overlap, by a wrapping addition. -/
def alignOverlap (alignmask : UInt64) (overlap : Range) : UInt64 := (overlap.start + alignmask) &&& ~~~alignmask

section Overlap
variable (hk : k < 64) (hmask : alignmask.toNat = 2 ^ k - 1) (hsize : 1 ≤ size.toNat)
include hk hmask hsize
variable (overlap) in
theorem toNat_alignOverlap (hfit : Fits size.toNat (2 ^ k) overlap.lo overlap.past) :
    (alignOverlap alignmask overlap).toNat = alignUp (2 ^ k) overlap.lo := by
  have hpast := overlap.past_le
  unfold Fits at hfit
  exact (toNat_roundUp hmask hk).trans (if_pos (by unfold lo at hfit; omega))

variable (overlap) in
/-- The tests of the loop pass exactly if the first aligned run fits. -/
theorem alignOverlap_tests : (alignOverlap alignmask overlap ≥ overlap.start ∧
      alignOverlap alignmask overlap ≤ overlap.end_) ∧
      overlap.end_ - alignOverlap alignmask overlap ≥ size - 1 ↔
    Fits size.toNat (2 ^ k) overlap.lo overlap.past := by
  have hround := toNat_roundUp (x := overlap.start) hmask hk
  have hpred : (size - 1).toNat = size.toNat - 1 := UInt64.toNat_sub_of_le _ _ (UInt64.le_iff_toNat_le.2 hsize)
  constructor
  · rintro ⟨⟨hstart, hend⟩, hroom⟩
    rw [ge_iff_le, UInt64.le_iff_toNat_le, UInt64.toNat_sub_of_le _ _ hend, hpred] at hroom
    rw [ge_iff_le, UInt64.le_iff_toNat_le] at hstart
    rw [UInt64.le_iff_toNat_le] at hend
    unfold alignOverlap at hstart hend hroom
    rw [hround] at hstart hend hroom
    unfold Fits lo past
    -- past the end the sum wraps to zero, which is below any start that wraps
    have hzero : overlap.start.toNat = 0 → alignUp (2 ^ k) overlap.start.toNat = 0 := by
      intro h
      rw [h, alignUp_of_dvd (Nat.dvd_zero _)]
    split at hstart
    case isTrue h =>
      rw [if_pos h] at hend hroom
      omega
    case isFalse h => omega
  · intro hfit
    have hao := toNat_alignOverlap overlap hk hmask hsize hfit
    have hle := le_alignUp (n := 2 ^ k) (x := overlap.lo)
    unfold Fits at hfit
    unfold past lo at *
    have hend : alignOverlap alignmask overlap ≤ overlap.end_ := by
      rw [UInt64.le_iff_toNat_le]
      omega
    refine ⟨⟨UInt64.le_iff_toNat_le.2 (by omega), hend⟩, ?_⟩
    rw [ge_iff_le, UInt64.le_iff_toNat_le, UInt64.toNat_sub_of_le _ _ hend]
    omega

/-- **The loop over the regions** finds the first one with room, inside the entry, for an aligned
run. -/
theorem searchRegions_spec (hent : ent.Proper) (hregions : ∀ r ∈ regions, r.Proper) :
    ∃ o, searchRegions size alignmask ent regions = .ok o ∧ RegionSpec size.toNat (2 ^ k) ent regions o := by
  induction regions with
  | nil => exact ⟨.miss, rfl, nofun⟩
  | cons region regions ih =>
    have hregion := hregions region mem_cons_self
    obtain ⟨o, hsearch, hspec⟩ := ih fun r hr => hregions r (mem_cons_of_mem _ hr)
    rw [searchRegions]
    cases hov : ent.overlaps region with
    | none =>
      have hno := (overlaps_isSome hent hregion).not.1 (by rw [hov]; exact Bool.false_ne_true)
      exact ⟨o, hsearch, hspec.cons (not_fits_of_le hsize (by
        unfold Range.Proper at hent hregion
        omega))⟩
    | some overlap =>
      obtain ⟨-, hlo, hpast⟩ := (overlaps_eq_some hent hregion).1 hov
      have htests := alignOverlap_tests overlap hk hmask hsize
      have hao := toNat_alignOverlap overlap hk hmask hsize
      have hpred : U64.sub size 1 = .ok (size - 1) := sub_ok (UInt64.le_iff_toNat_le.2 hsize)
      have hpred' : (size - 1).toNat = size.toNat - 1 := UInt64.toNat_sub_of_le _ _ (UInt64.le_iff_toNat_le.2 hsize)
      simp only [hpred, ok_bind]
      unfold alignOverlap at htests hao
      generalize (overlap.start + alignmask) &&& ~~~alignmask = ao at htests hao ⊢
      by_cases hfit : Fits size.toNat (2 ^ k) overlap.lo overlap.past
      · obtain ⟨hin, hroom⟩ := htests.2 hfit
        have hao := hao hfit
        have hpast64 := overlap.past_le
        have hadd : ao.toNat + (size - 1).toNat < 2 ^ 64 := by
          unfold Fits at hfit
          omega
        have hrun : AlignedRun size.toNat (2 ^ k) (max ent.lo region.lo) (min ent.past region.past)
            ao.toNat := by
          rw [← hlo, ← hpast, hao]
          exact ⟨dvd_alignUp (Nat.two_pow_pos k), le_alignUp, hfit⟩
        refine ⟨.hit ⟨ao, ao + (size - 1), ao⟩, ?_, region, mem_cons_self, rfl, hrun, ?_⟩
        · rw [if_pos hin, sub_ok hin.2, ok_bind, if_pos hroom, add_ok hadd, ok_bind, if_neg (not_gt_USIZE_MAX _ _)]
          rfl
        · change (ao + (size - 1)).toNat + 1 = ao.toNat + size.toNat
          rw [toNat_add_of_lt hadd]
          omega
      · refine ⟨o, ?_, hspec.cons (by rwa [← hlo, ← hpast])⟩
        by_cases hin : ao ≥ overlap.start ∧ ao ≤ overlap.end_
        · rw [if_pos hin, sub_ok hin.2, ok_bind, if_neg fun hroom => hfit (htests.1 ⟨hin, hroom⟩)]
          exact hsearch
        · rw [if_neg hin]
          exact hsearch
end Overlap

/-! ## The search over the entries -/

/-- The end of an allocation at the front of an entry: its first aligned run's, unless that overflows. -/
theorem allocationEnd_spec {alignFix : UInt64} (hsize : 1 ≤ size.toNat)
    (hfix : ent.start.toNat + alignFix.toNat = alignUp (2 ^ k) ent.lo) :
    (Overflows size.toNat (2 ^ k) ent.lo ∧ allocationEnd ent.start size alignFix = none) ∨
    (¬ Overflows size.toNat (2 ^ k) ent.lo ∧ ∃ end_, allocationEnd ent.start size alignFix = some end_ ∧
      end_.toNat + 1 = alignUp (2 ^ k) ent.lo + size.toNat) := by
  have hpred : (size - 1).toNat = size.toNat - 1 := UInt64.toNat_sub_of_le _ _ (UInt64.le_iff_toNat_le.2 hsize)
  unfold Overflows allocationEnd
  cases hfirst : checkedAdd ent.start (size - 1) with
  | none =>
    rw [checkedAdd_eq_none] at hfirst
    exact Or.inl ⟨by omega, rfl⟩
  | some first =>
    rw [checkedAdd_eq_some] at hfirst
    cases hend : checkedAdd first alignFix with
    | none =>
      have hover := checkedAdd_eq_none.1 hend
      exact Or.inl ⟨by omega, hend⟩
    | some end_ =>
      have hval := checkedAdd_eq_some.1 hend
      have hlt := end_.toNat_lt
      exact Or.inr ⟨by omega, end_, hend, by omega⟩

/-- The entries `l` leave the search with `found`: none overflows or has a run inside a region. -/
structure Passed (size align : ℕ) (request : RegionRequest) (l : List Range) (found : Option Allocation) : Prop where
  no_overflow : ∀ e ∈ l, ¬ Overflows size align e.lo
  no_region : ∀ e ∈ l, ∀ r ∈ request.regions, ¬ Fits size align (max e.lo r.lo) (min e.past r.past)
  found : if request.force then found = none else Best size align l found

/-- What the search over the entries `l` ends in. -/
def SearchSpec (size align : ℕ) (request : RegionRequest) (l : List Range) : Option (Option Allocation) → Prop
  | none => ∃ e ∈ l, Overflows size align e.lo
  | some found => (∃ e ∈ l, ∃ r ∈ request.regions, ∃ a ∈ found,
      a.Inside size align (max e.lo r.lo) (min e.past r.past)) ∨ Passed size align request l found

theorem passed_nil {size align : ℕ} : Passed size align request [] none where
  no_overflow := nofun
  no_region := nofun
  found := by
    split
    case isTrue => rfl
    case isFalse => exact forall_mem_nil _

theorem forall_mem_concat {p : Range → Prop} (h : ∀ e ∈ l1, p e) (hent : p ent) : ∀ e ∈ l1 ++ [ent], p e := by
  intro e he
  rcases mem_append.1 he with he | he
  · exact h e he
  · exact mem_singleton.1 he ▸ hent

/-- An entry that does not fit changes nothing. -/
theorem Best.concat_of_not_fits {size align : ℕ} (h : Best size align l1 best)
    (hno : ¬ Fits size align ent.lo ent.past) : Best size align (l1 ++ [ent]) best := by
  cases best with
  | none => exact forall_mem_concat h hno
  | some a =>
    obtain ⟨e, he, ha, hleast⟩ := h
    exact ⟨e, mem_append_left _ he, ha, forall_mem_concat hleast fun hfit => absurd hfit hno⟩

/-- **The comparison with the best allocation so far**, for an entry that fits. -/
theorem improves_spec {end_ alignFix : UInt64} (hbest : Best size.toNat (2 ^ k) l1 best)
    (hfix : ent.start.toNat + alignFix.toNat = alignUp (2 ^ k) ent.lo)
    (hend : end_.toNat + 1 = alignUp (2 ^ k) ent.lo + size.toNat) (hsize : 1 ≤ size.toNat)
    (hfit : Fits size.toNat (2 ^ k) ent.lo ent.past) :
    ∃ better, improves best (end_ - ent.start) = .ok better ∧ Best size.toNat (2 ^ k) (l1 ++ [ent])
        (if better then some ⟨ent.start, end_, ent.start + alignFix⟩ else best) := by
  have hlt := end_.toNat_lt
  have hfront : Allocation.AtFront ⟨ent.start, end_, ent.start + alignFix⟩ size.toNat (2 ^ k) ent := by
    have hptr : (ent.start + alignFix).toNat = alignUp (2 ^ k) ent.lo := by rw [toNat_add_of_lt (by omega), hfix]
    exact ⟨rfl, hptr, by rw [hptr]; exact hend, hfit⟩
  have hle := le_alignUp (n := 2 ^ k) (x := ent.lo)
  have hnew : (end_ - ent.start).toNat + 1 = alignUp (2 ^ k) ent.lo - ent.lo + size.toNat := by
    rw [UInt64.toNat_sub_of_le _ _ (UInt64.le_iff_toNat_le.2 (by unfold lo at hle; omega))]
    unfold lo at *
    omega
  cases best with
  | none =>
    refine ⟨true, rfl, ent, mem_append_cons_self, hfront, ?_⟩
    exact forall_mem_concat (fun e he hfit => absurd hfit (hbest e he)) fun _ => le_refl _
  | some a =>
    obtain ⟨e, he, ha, hleast⟩ := hbest
    have hlea := le_alignUp (n := 2 ^ k) (x := e.lo)
    have hbase : a.base.toNat = e.lo := congrArg UInt64.toNat ha.base
    have hptr := ha.ptr
    have haend := ha.end_
    have horder : a.base ≤ a.end_ := UInt64.le_iff_toNat_le.2 (by omega)
    have hold : (a.end_ - a.base).toNat + 1 = alignUp (2 ^ k) e.lo - e.lo + size.toNat := by
      rw [UInt64.toNat_sub_of_le _ _ horder]
      omega
    refine ⟨decide (a.end_ - a.base > end_ - ent.start), ?_, ?_⟩
    · simp only [improves, sub_ok horder, ok_bind]
      rfl
    · by_cases hbetter : a.end_ - a.base > end_ - ent.start
      · rw [decide_eq_true hbetter, if_pos rfl]
        rw [gt_iff_lt, UInt64.lt_iff_toNat_lt] at hbetter
        refine ⟨ent, mem_append_cons_self, hfront, ?_⟩
        refine forall_mem_concat (fun e' he' hfit' => ?_) fun _ => le_refl _
        have := hleast e' he' hfit'
        omega
      · rw [decide_eq_false hbetter, if_neg Bool.false_ne_true]
        rw [gt_iff_lt, UInt64.lt_iff_toNat_lt] at hbetter
        exact ⟨e, mem_append_left _ he, ha, forall_mem_concat hleast fun _ => by omega⟩

/-- An entry without room for the request has none inside a region either. -/
theorem not_fits_overlap {size align : ℕ} {r : Range} (halign : 0 < align) (h : ¬ Fits size align ent.lo ent.past) :
    ¬ Fits size align (max ent.lo r.lo) (min ent.past r.past) := by
  rw [← exists_alignedRun_iff halign] at h ⊢
  rintro ⟨p, hp, hlo, hpast⟩
  exact h ⟨p, hp, by omega, by omega⟩

/-- **The search over the entries** `l2`, with `l1` behind it. -/
theorem allocationSearch_spec (hk : k < 64) (halign : align.toNat = 2 ^ k)
    (hmask : alignmask.toNat = 2 ^ k - 1) (hsize : 1 ≤ size.toNat) (hents : ∀ e ∈ l2, e.Proper)
    (hregions : ∀ r ∈ request.regions, r.Proper)
    (hpassed : Passed size.toNat (2 ^ k) request l1 best) :
    ∃ o, allocationSearch size align alignmask request l2 best = .ok o ∧
      SearchSpec size.toNat (2 ^ k) request (l1 ++ l2) o := by
  induction l2 generalizing l1 best with
  | nil =>
    rw [append_nil]
    exact ⟨some best, rfl, Or.inr hpassed⟩
  | cons ent l2 ih =>
    have hent := hents ent mem_cons_self
    have hmem : ent ∈ l1 ++ ent :: l2 := mem_append_cons_self
    -- the search goes on behind an entry that is passed
    have hnext : ∀ best', Passed size.toNat (2 ^ k) request (l1 ++ [ent]) best' →
        ∃ o, allocationSearch size align alignmask request l2 best' = .ok o ∧
          SearchSpec size.toNat (2 ^ k) request (l1 ++ ent :: l2) o := by
      intro best' hbest'
      have hspec := ih (fun e he => hents e (mem_cons_of_mem _ he)) hbest'
      rwa [append_assoc, singleton_append] at hspec
    obtain ⟨d, hsub, hfix⟩ := padding_ok (x := ent.start) hmask halign
    change ent.lo + (d &&& alignmask).toNat = alignUp (2 ^ k) ent.lo at hfix
    rw [allocationSearch, hsub, ok_bind]
    rcases allocationEnd_spec hsize hfix with ⟨hover, hend⟩ | ⟨hover, end_, hend, hval⟩
    · simp only [hend]
      exact ⟨none, rfl, ent, hmem, hover⟩
    simp only [hend]
    rw [if_neg (not_gt_USIZE_MAX _ _)]
    by_cases hlong : end_ > ent.end_
    · rw [if_pos hlong]
      rw [gt_iff_lt, UInt64.lt_iff_toNat_lt] at hlong
      have hno : ¬ Fits size.toNat (2 ^ k) ent.lo ent.past := by
        unfold Fits past
        omega
      refine hnext best ⟨forall_mem_concat hpassed.no_overflow hover,
        forall_mem_concat hpassed.no_region fun r _ => not_fits_overlap (Nat.two_pow_pos k) hno, ?_⟩
      have hfound := hpassed.found
      split at hfound
      case isTrue hforce => rwa [if_pos hforce]
      case isFalse hforce => rw [if_neg hforce]; exact hfound.concat_of_not_fits hno
    have hfit : Fits size.toNat (2 ^ k) ent.lo ent.past := by
      rw [gt_iff_lt, UInt64.lt_iff_toNat_lt] at hlong
      unfold Fits past
      omega
    rw [if_neg hlong]
    obtain ⟨found, hregion, hspec⟩ := searchRegions_spec hk hmask hsize hent hregions
    rw [hregion, ok_bind]
    cases found with
    | skip => exact hspec.elim
    | hit a =>
      obtain ⟨r, hr, ha⟩ := hspec
      exact ⟨some (some a), rfl, Or.inl ⟨ent, hmem, r, hr, a, rfl, ha⟩⟩
    | miss =>
      have hregions' := forall_mem_concat hpassed.no_region hspec
      have hover' := forall_mem_concat hpassed.no_overflow hover
      have hfound := hpassed.found
      by_cases hforce : request.force = true
      · simp only [hforce, if_true] at hfound ⊢
        exact hnext best ⟨hover', hregions', by rw [if_pos hforce]; exact hfound⟩
      · rw [if_neg hforce] at hfound
        obtain ⟨better, himproves, hbest⟩ := improves_spec hfound hfix hval hsize hfit
        have hnext' := hnext _ ⟨hover', hregions', by rw [if_neg hforce]; exact hbest⟩
        have hlt := end_.toNat_lt
        have hadd : ent.lo + (d &&& alignmask).toNat < 2 ^ 64 := by omega
        have hbase : ent.start ≤ end_ := UInt64.le_iff_toNat_le.2 (show ent.lo ≤ end_.toNat by omega)
        simp only [if_neg hforce, sub_ok hbase, ok_bind, himproves, add_ok hadd]
        cases better with
        | true => exact hnext'
        | false => exact hnext'

/-! ## Allocation -/

/-- The range an allocation takes out of the set. -/
def Allocation.range (a : Allocation) : Range := ⟨a.base, a.end_⟩

variable {N : ℕ} {s s' : RangeSet N} {size align p : UInt64} {k : ℕ} {a : Allocation} {e : Range}
  {request : RegionRequest}

theorem Allocation.Inside.addrs {n m lo past : ℕ} (h : a.Inside n m lo past) :
    a.range.addrs = Finset.Ico a.ptr.toNat (a.ptr.toNat + n) := by
  rw [← h.end_, ← h.base]
  rfl

/-- The mask of an alignment that is a power of two. -/
theorem alignmask_of_pow (halign : align.toNat = 2 ^ k) : k < 64 ∧ 1 ≤ align ∧ (align - 1).toNat = 2 ^ k - 1 := by
  have hone : 1 ≤ align := by
    rw [UInt64.le_iff_toNat_le, halign]
    exact Nat.one_le_two_pow
  refine ⟨(Nat.pow_lt_pow_iff_right (by decide)).1 (halign ▸ align.toNat_lt), hone, ?_⟩
  rw [UInt64.toNat_sub_of_le _ _ hone, halign]
  rfl

/-- **What `allocate_prefer` does** with what the search finds, for a size that is not zero and an alignment that is a
power of two. -/
theorem allocatePrefer_of_search (hsize : 1 ≤ size.toNat) (halign : align.toNat = 2 ^ k)
    (o : Option (Option Allocation)) : allocationSearch size align (align - 1) request s.entries none = .ok o →
      s.allocatePrefer size align request = match o with
        | some (some a) => do return (some a.ptr, ← s.remove a.range)
        | _ => .ok (none, s) := by
  intro h
  have hzero : size ≠ 0 := by
    rintro rfl
    exact absurd hsize (by decide)
  obtain ⟨hk, hone, -⟩ := alignmask_of_pow halign
  rw [allocatePrefer, if_neg hzero, if_neg (not_not.2 (countOnes_eq_one.2 ⟨k, hk, halign⟩)),
    sub_ok hone, ok_bind, h, ok_bind]
  rcases o with _ | _ | a
  · rfl
  · rfl
  · rfl

theorem allocatePrefer_eq (hs : Canonical s.entries) (hrequest : ∀ r ∈ request.regions, r.Proper)
    (hsize : 1 ≤ size.toNat) (halign : align.toNat = 2 ^ k) :
    ∃ o, SearchSpec size.toNat (2 ^ k) request s.entries o ∧ s.allocatePrefer size align request = match o with
        | some (some a) => do return (some a.ptr, ← s.remove a.range)
        | _ => .ok (none, s) := by
  obtain ⟨hk, -, hmask⟩ := alignmask_of_pow halign
  obtain ⟨o, hsearch, hspec⟩ := allocationSearch_spec hk halign hmask hsize hs.proper hrequest passed_nil
  exact ⟨o, hspec, allocatePrefer_of_search hsize halign o hsearch⟩

/-- **An allocation at the front of an entry** takes the padding with it, and always succeeds. -/
theorem remove_atFront (hs : Canonical s.entries) (hsize : 1 ≤ size.toNat) (he : e ∈ s.entries)
    (ha : a.AtFront size.toNat (2 ^ k) e) :
    ∃ s', s.remove a.range = .ok s' ∧ Canonical s'.entries ∧
      s'.addrs = s.addrs \ Finset.Ico e.lo (a.ptr.toNat + size.toNat) := by
  have hlo : a.range.lo = e.lo := congrArg UInt64.toNat ha.base
  have hpast : a.range.past = a.ptr.toNat + size.toNat := ha.end_
  have hptr := ha.ptr
  have hfits := ha.fits
  have hle := le_alignUp (n := 2 ^ k) (x := e.lo)
  unfold Fits at hfits
  have hproper : a.range.Proper := by
    unfold Range.Proper
    omega
  obtain ⟨s', hremove, hs', haddrs⟩ := remove_front hs hproper he hlo (by omega)
  refine ⟨s', hremove, hs', ?_⟩
  rw [haddrs, ← hlo, ← hpast]
  rfl

/-- **How a request is served** from the entries `l`: the numbers from the first on are taken, and the
second is the pointer. -/
inductive Served (size align : ℕ) (request : RegionRequest) (l : List Range) : ℕ → ℕ → Prop
  /-- from an overlap with a region, exactly -/
  | inRegion {e r : Range} {q : ℕ} (he : e ∈ l) (hr : r ∈ request.regions)
      (run : AlignedRun size align (max e.lo r.lo) (min e.past r.past) q) :
      Served size align request l q q
  /-- from the front of the entry with the least padding, if no region has room -/
  | atFront {e : Range} (he : e ∈ l) (hforce : ¬ request.force = true) (hover : ∀ e ∈ l, ¬ Overflows size align e.lo)
      (hregion : ∀ e ∈ l, ∀ r ∈ request.regions, ¬ Fits size align (max e.lo r.lo) (min e.past r.past))
      (fits : Fits size align e.lo e.past)
      (least : ∀ e' ∈ l, Fits size align e'.lo e'.past → alignUp align e.lo - e.lo ≤ alignUp align e'.lo - e'.lo) :
      Served size align request l e.lo (alignUp align e.lo)

namespace Served
variable {n m base q : ℕ} {l : List Range}

theorem dvd (hm : 0 < m) (h : Served n m request l base q) : m ∣ q := by
  cases h with
  | inRegion he hr run => exact run.1
  | atFront => exact dvd_alignUp hm

section
variable (h : Served n m request l base q)
include h

theorem base_le : base ≤ q := by
  cases h with
  | inRegion => exact le_refl _
  | atFront => exact le_alignUp

/-- What is taken is part of an entry. -/
theorem subset : Finset.Ico base (q + n) ⊆ coverOf l := by
  intro x hx
  rw [Finset.mem_Ico] at hx
  cases h with
  | inRegion he hr run => exact mem_cover.2 ⟨_, he, by have := run.2; omega, by have := run.2; omega⟩
  | atFront he hforce hover hregion fits => exact mem_cover.2 ⟨_, he, hx.1, lt_of_lt_of_le hx.2 fits⟩

/-- The result is in a region, unless none has room and they are no must-use. -/
theorem region_or : (∃ r ∈ request.regions, Finset.Ico q (q + n) ⊆ r.addrs) ∨
    ¬ request.force = true ∧ ∀ e ∈ l, ∀ r ∈ request.regions, ¬ Fits n m (max e.lo r.lo) (min e.past r.past) := by
  cases h with
  | inRegion he hr run =>
    refine Or.inl ⟨_, hr, Finset.Ico_subset_Ico ?_ ?_⟩
    · exact (le_max_right _ _).trans run.2.1
    · exact run.2.2.trans (min_le_right _ _)
  | atFront he hforce hover hregion => exact Or.inr ⟨hforce, hregion⟩
end
end Served

/-- **An allocation that returns a pointer** takes what serves the request out of the set. -/
theorem allocatePrefer_eq_some (hs : Canonical s.entries) (hrequest : ∀ r ∈ request.regions, r.Proper)
    (hsize : 1 ≤ size.toNat) (halign : align.toNat = 2 ^ k)
    (h : s.allocatePrefer size align request = .ok (some p, s')) :
    Canonical s'.entries ∧ ∃ base, Served size.toNat (2 ^ k) request s.entries base p.toNat ∧
      s'.addrs = s.addrs \ Finset.Ico base (p.toNat + size.toNat) := by
  obtain ⟨o, hspec, heq⟩ := allocatePrefer_eq hs hrequest hsize halign
  rw [h] at heq
  rcases o with _ | _ | a
  · cases heq
  · cases heq
  obtain ⟨t, hremove, hret⟩ := bind_eq_ok.1 heq.symm
  cases hret
  rcases hspec with ⟨e, he, r, hr, a', ha', hinside⟩ | hpassed
  · cases Option.some.inj ha'
    have hproper : a.range.Proper := by
      have hend : a.range.past = a.ptr.toNat + size.toNat := hinside.end_
      have hbase : a.range.lo = a.ptr.toNat := congrArg UInt64.toNat hinside.base
      unfold Range.Proper
      omega
    obtain ⟨hs', haddrs⟩ := remove_eq_ok hs hproper hremove
    rw [hinside.addrs] at haddrs
    exact ⟨hs', _, .inRegion he hr hinside.run, haddrs⟩
  · have hfound := hpassed.found
    split at hfound
    case isTrue => cases hfound
    case isFalse hforce =>
      obtain ⟨e, he, hfront, hleast⟩ := hfound
      obtain ⟨t', hremove', hs', haddrs⟩ := remove_atFront hs hsize he hfront
      cases Except.ok.inj (hremove.symm.trans hremove')
      refine ⟨hs', e.lo, ?_, haddrs⟩
      rw [hfront.ptr]
      exact .atFront he hforce hpassed.no_overflow hpassed.no_region hfront.fits hleast

/-- **Soundness of `allocate_prefer`**: the result is aligned, was free and no longer is, nothing becomes
free, and the regions are kept to. -/
theorem allocatePrefer_sound (hs : Canonical s.entries) (hrequest : Canonical request.regions)
    (hsize : 1 ≤ size.toNat) (halign : ∃ k, align.toNat = 2 ^ k)
    (h : s.allocatePrefer size align request = .ok (some p, s')) :
    align.toNat ∣ p.toNat ∧
    Finset.Ico p.toNat (p.toNat + size.toNat) ⊆ s.addrs ∧
    Disjoint (Finset.Ico p.toNat (p.toNat + size.toNat)) s'.addrs ∧
    s'.addrs ⊆ s.addrs ∧
    (∀ R, request = .forced R → ∃ r ∈ R.entries, Finset.Ico p.toNat (p.toNat + size.toNat) ⊆ r.addrs) ∧
    (∀ R, request = .preference R → (∃ r ∈ R.entries, Finset.Ico p.toNat (p.toNat + size.toNat) ⊆ r.addrs) ∨
      ∀ e ∈ s.entries, ∀ r ∈ R.entries, ∀ q, align.toNat ∣ q →
        ¬ Finset.Ico q (q + size.toNat) ⊆ e.addrs ∩ r.addrs) := by
  obtain ⟨k, hk⟩ := halign
  obtain ⟨-, base, hserved, haddrs⟩ := allocatePrefer_eq_some hs hrequest.proper hsize hk h
  have hsub : Finset.Ico p.toNat (p.toNat + size.toNat) ⊆ Finset.Ico base (p.toNat + size.toNat) :=
    Finset.Ico_subset_Ico hserved.base_le (le_refl _)
  rw [hk, haddrs]
  refine ⟨hserved.dvd (Nat.two_pow_pos k), hsub.trans hserved.subset,
    Finset.disjoint_of_subset_left hsub Finset.disjoint_sdiff, Finset.sdiff_subset, ?_⟩
  rcases hserved.region_or with ⟨r, hr, hregion⟩ | ⟨hforce, hregion⟩
  · constructor
    · rintro R rfl
      exact ⟨r, hr, hregion⟩
    · rintro R rfl
      exact Or.inl ⟨r, hr, hregion⟩
  · constructor
    · rintro R rfl
      exact absurd rfl hforce
    · rintro R rfl
      refine Or.inr fun e he r hr q hq hqsub => hregion e he r hr ?_
      refine (exists_alignedRun_iff (Nat.two_pow_pos k)).1 ⟨q, hq, ?_⟩
      rw [Range.addrs, Range.addrs, Finset.Ico_inter_Ico] at hqsub
      exact (Finset.Ico_subset_Ico_iff (Nat.lt_add_of_pos_right hsize)).1 hqsub

/-- Two entries. -/
def twoEntries : RangeSet 3 := ⟨[⟨1, 5⟩, ⟨7, 15⟩], by decide⟩

/-- Three numbers, aligned to two, from the preferred region `[7, 12]`: the run at `8`, which splits the
second entry. -/
theorem allocatePrefer_sound_preferred : twoEntries.allocatePrefer 3 2 (.preference ⟨[⟨7, 12⟩], by decide⟩)
      = .ok (some 8, ⟨[⟨1, 5⟩, ⟨11, 15⟩, ⟨7, 7⟩], by decide⟩) ∧
    Finset.Ico 8 11 ⊆ twoEntries.addrs ∧
    Disjoint (Finset.Ico 8 11) (coverOf [⟨1, 5⟩, ⟨11, 15⟩, ⟨7, 7⟩]) := by
  have h : twoEntries.allocatePrefer 3 2 (.preference ⟨[⟨7, 12⟩], by decide⟩)
      = .ok (some 8, ⟨[⟨1, 5⟩, ⟨11, 15⟩, ⟨7, 7⟩], by decide⟩) := by rfl
  obtain ⟨-, hfree, htaken, -⟩ := allocatePrefer_sound (by decide) (by decide) (by decide) ⟨1, rfl⟩ h
  exact ⟨h, hfree, htaken⟩

/-! ## Padding -/

/-- If the request comes to be served from the front of an entry, some entry with room for it starts
aligned. -/
def Unpadded (s : RangeSet N) (size align : UInt64) (request : RegionRequest) : Prop :=
  1 ≤ size.toNat → (∃ k, align.toNat = 2 ^ k) → ¬ request.force = true →
    (∀ e ∈ s.entries, ¬ Overflows size.toNat align.toNat e.lo) →
    (∀ e ∈ s.entries, ∀ r ∈ request.regions, ¬ Fits size.toNat align.toNat (max e.lo r.lo) (min e.past r.past)) →
    (∃ e ∈ s.entries, Fits size.toNat align.toNat e.lo e.past) →
    ∃ e ∈ s.entries, Fits size.toNat align.toNat e.lo e.past ∧ align.toNat ∣ e.lo

/-- **Padding is lost exactly if no entry with room starts aligned.** -/
theorem unpadded_iff {base : ℕ} (hsize : 1 ≤ size.toNat) (halign : align.toNat = 2 ^ k)
    (h : Served size.toNat (2 ^ k) request s.entries base p.toNat) :
    s.Unpadded size align request ↔ base = p.toNat := by
  unfold Unpadded
  rw [halign]
  generalize p.toNat = q at h
  cases h with
  | @inRegion e r q he hr run =>
    refine iff_of_true (fun _ _ _ _ hregion _ => ?_) rfl
    exact absurd ((exists_alignedRun_iff (Nat.two_pow_pos k)).1 ⟨_, run⟩) (hregion e he r hr)
  | @atFront e he hforce hover hregion fits least =>
    constructor
    · intro hunpadded
      obtain ⟨e', he', hfits', hdvd⟩ := hunpadded hsize ⟨k, rfl⟩ hforce hover hregion ⟨e, he, fits⟩
      have hle := least e' he' hfits'
      have hself := le_alignUp (n := 2 ^ k) (x := e.lo)
      rw [alignUp_of_dvd hdvd, Nat.sub_self] at hle
      omega
    · intro heq _ _ _ _ _ _
      exact ⟨e, he, fits, heq ▸ dvd_alignUp (Nat.two_pow_pos k)⟩

/-- **What an allocation that returns has done**: nothing, or it took what serves the request. -/
theorem allocatePrefer_inv {o : Option UInt64} (hs : Canonical s.entries) (hrequest : ∀ r ∈ request.regions, r.Proper)
    (h : s.allocatePrefer size align request = .ok (o, s')) :
    (o = none ∧ s' = s ∧ s.Unpadded size align request) ∨
    (∃ p k base, o = some p ∧ 1 ≤ size.toNat ∧ align.toNat = 2 ^ k ∧ Canonical s'.entries ∧
      Served size.toNat (2 ^ k) request s.entries base p.toNat ∧
      s'.addrs = s.addrs \ Finset.Ico base (p.toNat + size.toNat) ∧
      (s.Unpadded size align request ↔ base = p.toNat)) := by
  by_cases hzero : size = 0
  · rw [allocatePrefer, if_pos hzero] at h
    cases h
    exact Or.inl ⟨rfl, rfl, fun hsize => absurd hsize (by rw [hzero]; decide)⟩
  by_cases hones : countOnes align = 1
  · obtain ⟨k, -, hk⟩ := countOnes_eq_one.1 hones
    have hsize : 1 ≤ size.toNat := Nat.one_le_iff_ne_zero.2 fun e => hzero (UInt64.toNat_inj.1 e)
    cases o with
    | some p =>
      obtain ⟨hs', base, hserved, haddrs⟩ := allocatePrefer_eq_some hs hrequest hsize hk h
      exact Or.inr ⟨p, k, base, rfl, hsize, hk, hs', hserved, haddrs, unpadded_iff hsize hk hserved⟩
    | none =>
      refine Or.inl ⟨rfl, ?_⟩
      obtain ⟨o, hspec, heq⟩ := allocatePrefer_eq hs hrequest hsize hk
      rw [h] at heq
      rcases o with _ | _ | a
      · cases heq
        obtain ⟨e, he, ho⟩ := hspec
        exact ⟨rfl, fun _ _ _ hover _ _ => absurd (hk ▸ ho) (hover e he)⟩
      · cases heq
        refine ⟨rfl, fun _ _ hforce _ _ ⟨e, he, hfits⟩ => ?_⟩
        rcases hspec with ⟨-, -, -, -, a, ha, -⟩ | hpassed
        · exact absurd ha (Option.not_mem_none _)
        · have hbest := hpassed.found
          rw [if_neg hforce, ← hk] at hbest
          exact absurd hfits (hbest e he)
      · obtain ⟨t, -, hret⟩ := bind_eq_ok.1 heq.symm
        cases hret
  · rw [allocatePrefer, if_neg hzero, if_pos hones] at h
    cases h
    refine Or.inl ⟨rfl, rfl, fun _ ⟨k, hk⟩ => absurd (countOnes_eq_one.2 ⟨k, ?_, hk⟩) hones⟩
    exact (Nat.pow_lt_pow_iff_right (by decide)).1 (hk ▸ align.toNat_lt)

/-! ## Completeness -/

/-- **When `allocate` finds nothing**: an entry overflows, or none fits. -/
theorem allocate_eq (hs : Canonical s.entries) (hsize : 1 ≤ size.toNat) (halign : align.toNat = 2 ^ k) :
    (((∃ e ∈ s.entries, Overflows size.toNat (2 ^ k) e.lo) ∨ ∀ e ∈ s.entries, ¬ Fits size.toNat (2 ^ k) e.lo e.past) ∧
      s.allocate size align = .ok (none, s)) ∨
    ((∀ e ∈ s.entries, ¬ Overflows size.toNat (2 ^ k) e.lo) ∧ (∃ e ∈ s.entries, Fits size.toNat (2 ^ k) e.lo e.past) ∧
      ∃ p s', s.allocate size align = .ok (some p, s')) := by
  have hany : ∀ r ∈ RegionRequest.any.regions, r.Proper := forall_mem_nil _
  obtain ⟨o, hspec, heq⟩ := allocatePrefer_eq hs hany hsize halign
  rcases o with _ | found
  · exact Or.inl ⟨Or.inl hspec, heq⟩
  rcases hspec with ⟨e, -, r, hr, -⟩ | hpassed
  · exact absurd hr not_mem_nil
  have hbest : Best size.toNat (2 ^ k) s.entries found := hpassed.found
  cases found with
  | none => exact Or.inl ⟨Or.inr hbest, heq⟩
  | some a =>
    obtain ⟨e, he, hfront, -⟩ := hbest
    obtain ⟨s', hremove, -⟩ := remove_atFront hs hsize he hfront
    refine Or.inr ⟨hpassed.no_overflow, ⟨e, he, hfront.fits⟩, a.ptr, s', heq.trans ?_⟩
    change (s.remove a.range >>= fun t => pure (some a.ptr, t)) = _
    rw [hremove]
    rfl

/-- `allocate` finds nothing only if no entry has an aligned run of that size. -/
def AllocateComplete (s : RangeSet N) (size align : UInt64) : Prop :=
  ∀ s', s.allocate size align = .ok (none, s') → ∀ e ∈ s.entries, ∀ q, align.toNat ∣ q →
    ¬ Finset.Ico q (q + size.toNat) ⊆ e.addrs

/-- **Completeness of `allocate`**, exactly: it always returns, and it misses a run that is there
exactly if some entry is so close to `u64::MAX` that its first aligned run would end past it. -/
theorem allocateComplete_iff (hs : Canonical s.entries) (hsize : 1 ≤ size.toNat) (halign : ∃ k, align.toNat = 2 ^ k) :
    (∃ o s', s.allocate size align = .ok (o, s')) ∧
    (AllocateComplete s size align ↔ (∀ e ∈ s.entries, ¬ Overflows size.toNat align.toNat e.lo) ∨
      ∀ e ∈ s.entries, ¬ Fits size.toNat align.toNat e.lo e.past) := by
  obtain ⟨k, hk⟩ := halign
  have hrun : ∀ e : Range, (∃ q, align.toNat ∣ q ∧ Finset.Ico q (q + size.toNat) ⊆ e.addrs) ↔
      Fits size.toNat align.toNat e.lo e.past := by
    intro e
    rw [← exists_alignedRun_iff (hk ▸ Nat.two_pow_pos k)]
    refine exists_congr fun q => and_congr_right fun _ => ?_
    exact Finset.Ico_subset_Ico_iff (Nat.lt_add_of_pos_right hsize)
  have hcomplete : AllocateComplete s size align ↔ ∀ s', s.allocate size align = .ok (none, s') →
      ∀ e ∈ s.entries, ¬ Fits size.toNat align.toNat e.lo e.past := by
    refine forall₂_congr fun s' _ => forall₂_congr fun e _ => ?_
    rw [← hrun]
    push Not
    rfl
  rw [hcomplete, hk]
  rcases allocate_eq hs hsize hk with ⟨hwhy, heq⟩ | ⟨hover, -, p, s', heq⟩
  · refine ⟨⟨_, _, heq⟩, fun h => Or.inr (h s heq), fun h s' _ => ?_⟩
    rcases h with h | h
    · rcases hwhy with ⟨e, he, hover⟩ | hnone
      · exact absurd hover (h e he)
      · exact hnone
    · exact h
  · refine ⟨⟨_, _, heq⟩, fun _ => Or.inl hover, fun _ s'' h => ?_⟩
    rw [heq] at h
    cases h

/-- An entry of two numbers right below `u64::MAX` hides the ten of the other entry. -/
def nearMax : RangeSet 2 := ⟨[⟨0, 9⟩, ⟨U64.MAX - 1, U64.MAX⟩], by decide⟩

theorem allocateComplete_iff_nearMax : ¬ AllocateComplete nearMax 4 1 := by
  rw [(allocateComplete_iff (s := nearMax) (by decide) (by decide) ⟨0, rfl⟩).2]
  decide

theorem not_allocateComplete : ¬ ∀ (N : ℕ) (s : RangeSet N) (size align : UInt64),
    Canonical s.entries → 1 ≤ size.toNat → (∃ k, align.toNat = 2 ^ k) →
    AllocateComplete s size align := by
  intro h
  refine h 2 nearMax 4 1 (by decide) (by decide) ⟨0, rfl⟩ nearMax rfl ⟨0, 9⟩ (by decide) 0 (Nat.dvd_zero _) ?_
  decide
end RangeSet
end WasabiOS
