import WasabiOS.Shared.RangeSetAllocate

/-!
# Shared/RangeSetChoice — which entry serves a request

A request for any region is served from the front of the first entry with the least padding among those that fit
(`Chosen`), unless an entry overflows: `allocate_chosen`.
-/

open Machinery IntervalList
namespace WasabiOS
open List UInt64
namespace RangeSet

/-- The numbers of an entry before its first aligned one. -/
def padding (align : ℕ) (e : Range) : ℕ := U64.alignUp align e.lo - e.lo

/-- **The first entry with the least padding** among the entries of `l` that fit. -/
def Chosen (size align : ℕ) (l : List Range) (e : Range) : Prop :=
  ∃ l1 l2, l = l1 ++ e :: l2 ∧ Fits size align e.lo e.past ∧
    (∀ e' ∈ l1, Fits size align e'.lo e'.past → padding align e < padding align e') ∧
    ∀ e' ∈ l2, Fits size align e'.lo e'.past → padding align e ≤ padding align e'

variable {n m : ℕ} {l l1 l2 : List Range} {e ent : Range}

theorem Chosen.mem (h : Chosen n m l e) : e ∈ l := by
  obtain ⟨l1, l2, rfl, -⟩ := h
  exact mem_append_cons_self

theorem Chosen.fits (h : Chosen n m l e) : Fits n m e.lo e.past := by
  obtain ⟨-, -, -, hfits, -⟩ := h
  exact hfits

/-- An entry behind that does not fit, or needs no less padding, changes nothing. -/
theorem Chosen.concat (h : Chosen n m l e) (hent : Fits n m ent.lo ent.past → padding m e ≤ padding m ent) :
    Chosen n m (l ++ [ent]) e := by
  obtain ⟨l1, l2, rfl, hfits, hbefore, hbehind⟩ := h
  refine ⟨l1, l2 ++ [ent], by simp, hfits, hbefore, ?_⟩
  exact forall_mem_concat hbehind hent

/-- An entry behind that needs less padding than all before. -/
theorem chosen_concat (hfits : Fits n m ent.lo ent.past)
    (hless : ∀ e' ∈ l, Fits n m e'.lo e'.past → padding m ent < padding m e') : Chosen n m (l ++ [ent]) ent :=
  ⟨l, [], rfl, hfits, hless, forall_mem_nil _⟩

theorem Chosen.le (h : Chosen n m l e) {e' : Range} (he' : e' ∈ l) (hfits : Fits n m e'.lo e'.past) :
    padding m e ≤ padding m e' := by
  obtain ⟨l1, l2, rfl, -, hbefore, hbehind⟩ := h
  rcases mem_append.1 he' with hmem | hmem
  · exact (hbefore e' hmem hfits).le
  rcases mem_cons.1 hmem with rfl | hmem
  · exact le_refl _
  · exact hbehind e' hmem hfits

theorem Chosen.unique {e' : Range} (h : Chosen n m l e) (h' : Chosen n m l e') : e = e' := by
  obtain ⟨l1, l2, rfl, hfits, hbefore, hbehind⟩ := h
  obtain ⟨m1, m2, heq, hfits', hbefore', hbehind'⟩ := h'
  -- one of the two is before the other, and then needs less padding and no less
  rcases append_eq_append_iff.1 heq with ⟨t, rfl, ht⟩ | ⟨t, rfl, ht⟩
  · cases t with
    | nil => exact (List.cons.inj ht).1
    | cons x t =>
      obtain ⟨rfl, rfl⟩ := List.cons.inj ht
      have hlt := hbefore' e mem_append_cons_self hfits
      have hle := hbehind e' mem_append_cons_self hfits'
      omega
  · cases t with
    | nil => exact (List.cons.inj ht).1.symm
    | cons x t =>
      obtain ⟨rfl, rfl⟩ := List.cons.inj ht
      have hlt := hbefore e' mem_append_cons_self hfits'
      have hle := hbehind' e mem_append_cons_self hfits
      omega

/-- The best allocation at the front of an entry of `l`, the first of those as good. -/
def FirstBest (size align : ℕ) (l : List Range) : Option Allocation → Prop
  | none => ∀ e ∈ l, ¬ Fits size align e.lo e.past
  | some a => ∃ e, Chosen size align l e ∧ a.AtFront size align e

theorem FirstBest.concat_of_not_fits {best : Option Allocation} (h : FirstBest n m l best)
    (hno : ¬ Fits n m ent.lo ent.past) : FirstBest n m (l ++ [ent]) best := by
  cases best with
  | none => exact forall_mem_concat h hno
  | some a =>
    obtain ⟨e, hchosen, ha⟩ := h
    exact ⟨e, hchosen.concat fun hfit => absurd hfit hno, ha⟩

variable {size align alignmask : UInt64} {k : ℕ} {a : Allocation} {best : Option Allocation} {end_ : UInt64}

/-- The size of an allocation at the front of an entry is compared as its padding. -/
theorem Allocation.AtFront.width (h : a.AtFront size.toNat (2 ^ k) e) (hsize : 1 ≤ size.toNat) :
    a.base ≤ a.end_ ∧ (a.end_ - a.base).toNat + 1 = padding (2 ^ k) e + size.toNat := by
  have hle : e.lo ≤ U64.alignUp (2 ^ k) e.lo := U64.le_alignUp
  have hbase : a.base.toNat = e.lo := congrArg UInt64.toNat h.base
  have hptr := h.ptr
  have hend := h.end_
  have horder : a.base ≤ a.end_ := le_iff_toNat_le.2 (by omega)
  refine ⟨horder, ?_⟩
  rw [UInt64.toNat_sub_of_le _ _ horder, padding]
  omega

/-- **The comparison with the best allocation so far** keeps the first of two that are as good. -/
theorem FirstBest.concat (hbest : FirstBest size.toNat (2 ^ k) l best) (hsize : 1 ≤ size.toNat)
    (ha : a.AtFront size.toNat (2 ^ k) ent) :
    ∃ better, improves best (a.end_ - a.base) = .ok better ∧
      FirstBest size.toNat (2 ^ k) (l ++ [ent]) (if better then some a else best) := by
  obtain ⟨-, hnew⟩ := ha.width hsize
  cases best with
  | none => exact ⟨true, rfl, ent, chosen_concat ha.fits fun e' he' hfit => absurd hfit (hbest e' he'), ha⟩
  | some b =>
    obtain ⟨e, hchosen, hb⟩ := hbest
    obtain ⟨horder, hold⟩ := hb.width hsize
    refine ⟨decide (b.end_ - b.base > a.end_ - a.base), ?_, ?_⟩
    · simp only [improves, U64.sub_ok horder, ok_bind]
      rfl
    by_cases hbetter : b.end_ - b.base > a.end_ - a.base
    · rw [decide_eq_true hbetter, if_pos rfl]
      rw [gt_iff_lt, lt_iff_toNat_lt] at hbetter
      refine ⟨ent, chosen_concat ha.fits fun e' he' hfit => ?_, ha⟩
      have hle := hchosen.le he' hfit
      omega
    · rw [decide_eq_false hbetter, if_neg Bool.false_ne_true]
      rw [gt_iff_lt, lt_iff_toNat_lt] at hbetter
      exact ⟨e, hchosen.concat fun _ => by omega, hb⟩

/-- **The search for any region** over the entries `l2`, with `l1` behind it, none of which overflows. -/
theorem allocationSearch_any (halign : align.toNat = 2 ^ k) (hmask : alignmask.toNat = 2 ^ k - 1)
    (hsize : 1 ≤ size.toNat) (hover : ∀ e ∈ l2, ¬ Overflows size.toNat (2 ^ k) e.lo)
    (hbest : FirstBest size.toNat (2 ^ k) l1 best) :
    ∃ found, allocationSearch size align alignmask .any l2 best = .ok (some found) ∧
      FirstBest size.toNat (2 ^ k) (l1 ++ l2) found := by
  induction l2 generalizing l1 best with
  | nil =>
    rw [append_nil]
    exact ⟨best, rfl, hbest⟩
  | cons ent l2 ih =>
    have hnext : ∀ best', FirstBest size.toNat (2 ^ k) (l1 ++ [ent]) best' →
        ∃ found, allocationSearch size align alignmask .any l2 best' = .ok (some found) ∧
          FirstBest size.toNat (2 ^ k) (l1 ++ ent :: l2) found := by
      intro best' hbest'
      have hspec := ih (fun e he => hover e (mem_cons_of_mem _ he)) hbest'
      rwa [append_assoc, singleton_append] at hspec
    obtain ⟨d, hsub, hfix⟩ := U64.padding_ok (x := ent.start) hmask halign
    change ent.lo + (d &&& alignmask).toNat = U64.alignUp (2 ^ k) ent.lo at hfix
    rw [allocationSearch, hsub, ok_bind]
    rcases allocationEnd_spec hsize hfix with ⟨hno, -⟩ | ⟨-, end_, hend, hval⟩
    · exact absurd hno (hover ent mem_cons_self)
    simp only [hend]
    rw [if_neg (not_gt_USIZE_MAX _ _)]
    by_cases hlong : end_ > ent.end_
    · rw [if_pos hlong]
      rw [gt_iff_lt, lt_iff_toNat_lt] at hlong
      refine hnext best (hbest.concat_of_not_fits ?_)
      unfold Fits Range.past
      omega
    rw [if_neg hlong]
    rw [gt_iff_lt, lt_iff_toNat_lt] at hlong
    have hlt := end_.toNat_lt
    have hadd : ent.lo + (d &&& alignmask).toNat < 2 ^ 64 := by omega
    have hbase : ent.start ≤ end_ := le_iff_toNat_le.2 (show ent.lo ≤ end_.toNat by omega)
    have hptr : (ent.start + (d &&& alignmask)).toNat = U64.alignUp (2 ^ k) ent.lo :=
      (U64.toNat_add_of_lt hadd).trans hfix
    have hfront : Allocation.AtFront ⟨ent.start, end_, ent.start + (d &&& alignmask)⟩ size.toNat (2 ^ k) ent :=
      ⟨rfl, hptr, by rw [hptr]; exact hval, by unfold Fits Range.past; omega⟩
    obtain ⟨better, himproves, hbest'⟩ := hbest.concat hsize hfront
    have hnext' := hnext _ hbest'
    have hmiss : searchRegions size alignmask ent RegionRequest.any.regions = .ok .miss := rfl
    have hforce : ¬ RegionRequest.any.force = true := Bool.false_ne_true
    simp only [hmiss, if_neg hforce, U64.sub_ok hbase, ok_bind, himproves, U64.add_ok hadd]
    cases better with
    | true => exact hnext'
    | false => exact hnext'

/-- **`allocate` serves the request from the first entry with the least padding**, unless an entry overflows. -/
theorem allocate_chosen {N : ℕ} {s : RangeSet N} (hs : Canonical s.entries)
    (hsize : 1 ≤ size.toNat) (halign : align.toNat = 2 ^ k)
    (hover : ∀ e ∈ s.entries, ¬ Overflows size.toNat (2 ^ k) e.lo)
    (hfits : ∃ e ∈ s.entries, Fits size.toNat (2 ^ k) e.lo e.past) :
    ∃ e p s', Chosen size.toNat (2 ^ k) s.entries e ∧ p.toNat = U64.alignUp (2 ^ k) e.lo ∧
      s.allocate size align = .ok (some p, s') ∧ Canonical s'.entries ∧
      s'.addrs = s.addrs \ Finset.Ico e.lo (p.toNat + size.toNat) := by
  obtain ⟨-, -, hmask⟩ := alignmask_of_pow halign
  have hnone : FirstBest size.toNat (2 ^ k) [] none := forall_mem_nil _
  obtain ⟨found, hsearch, hbest⟩ := allocationSearch_any halign hmask hsize hover hnone
  rw [nil_append] at hbest
  cases found with
  | none =>
    obtain ⟨e, he, hfit⟩ := hfits
    exact absurd hfit (hbest e he)
  | some a =>
    obtain ⟨e, hchosen, ha⟩ := hbest
    obtain ⟨s', hremove, hs', haddrs⟩ := remove_atFront hs hsize hchosen.mem ha
    refine ⟨e, a.ptr, s', hchosen, ha.ptr, ?_, hs', haddrs⟩
    rw [allocate, allocatePrefer_of_search hsize halign _ hsearch]
    simp only [hremove]
    rfl
end RangeSet
end WasabiOS
