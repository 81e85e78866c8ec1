import Mathlib.Algebra.Order.Ring.Nat
import WasabiOS.Machinery.Prog
import WasabiOS.Machinery.Slice

/-!
# Shared/OwnedSlice — a slice that keeps its owner

`subrange` narrows the view and passes the owner on.  It compares the length of the range with that of the
view, not its position, so a range that starts too far behind is not refused.
-/

open Machinery
namespace WasabiOS
open List

/-- `core::ops::Range<usize>` -/
structure IndexRange where
  start : ℕ
  stop : ℕ
  deriving DecidableEq, Repr

/-- `ExactSizeIterator::len`: a range that starts behind its end is empty -/
def IndexRange.len (r : IndexRange) : ℕ := r.stop - r.start

variable {α : Type} {view : List α} {r : IndexRange} {rs : List IndexRange}

/-- `&view[range]` -/
def index (view : List α) (r : IndexRange) : Checked (List α) :=
  if r.start ≤ r.stop ∧ r.stop ≤ view.length then .ok (slice view r.start r.len) else .error .panic

/-- A `&[T]` that also keeps ownership of the data; there are at most `usize::MAX` elements. -/
structure OwnedSlice (α : Type) where
  owner : {elements : List α // elements.length < 2 ^ 64}
  start : ℕ
  stop : ℕ

namespace OwnedSlice

/-- `From<Box<[T]>>` -/
def ofOwner (owner : {elements : List α // elements.length < 2 ^ 64}) : OwnedSlice α := ⟨owner, 0, owner.1.length⟩

def asRef (s : OwnedSlice α) : Checked (List α) := index s.owner ⟨s.start, s.stop⟩

/-- Creates a subset of the current [OwnedSlice]. -/
def subrange (s : OwnedSlice α) (range : IndexRange) : Checked (OwnedSlice α) := do
  let view ← s.asRef
  -- if the first of the two sums overflows, so does the second
  if view.length < range.len ∨ 2 ^ 64 ≤ s.start + range.start + range.len then .error .panic
  else .ok { s with start := s.start + range.start, stop := s.start + range.start + range.len }

/-- After each call of a chain the view is the one that nested slicing gives, and a call panics exactly if
that does. -/
def Composes (s : OwnedSlice α) (view : List α) (rs : List IndexRange) : Prop :=
  ∀ taken, taken <+: rs → (taken.foldlM subrange s).map asRef = (taken.foldlM index view).map .ok

/-- Each range lies in the view it is taken of, up to one that is too long for the view or whose end is no
`usize`. -/
def Aligned (start length : ℕ) : List IndexRange → Prop
  | [] => True
  | r :: rs =>
    if r.start ≤ r.stop ∧ r.stop ≤ length then Aligned (start + r.start) r.len rs
    else length < r.len ∨ 2 ^ 64 ≤ start + r.start + r.len

variable {s : OwnedSlice α}

theorem asRef_eq_ok : s.asRef = .ok view ↔
    (s.start ≤ s.stop ∧ s.stop ≤ s.owner.1.length) ∧ slice s.owner s.start (s.stop - s.start) = view := by
  rw [asRef, index]
  split_ifs with h
  · simp only [h, true_and, and_self, Except.ok.injEq, IndexRange.len]
  · exact ⟨False.elim, fun e => absurd e.1 h⟩

/-- **A range inside the view** narrows it as slicing does. -/
theorem subrange_inside (hs : s.asRef = .ok view) (hr : r.start ≤ r.stop ∧ r.stop ≤ view.length) :
    ∃ s', s.subrange r = .ok s' ∧ s'.start = s.start + r.start ∧ s'.asRef = .ok (slice view r.start r.len) := by
  obtain ⟨⟨hle, hstop⟩, rfl⟩ := asRef_eq_ok.1 hs
  have hlen : (slice s.owner.1 s.start (s.stop - s.start)).length = s.stop - s.start := length_slice (by omega)
  have hbound := s.owner.2
  have hrlen : r.len = r.stop - r.start := rfl
  rw [hlen] at hr
  have hfits : s.subrange r = .ok ⟨s.owner, s.start + r.start, s.start + r.start + r.len⟩ := by
    rw [subrange, hs, ok_bind, hlen, if_neg (by omega)]
  refine ⟨_, hfits, rfl, asRef_eq_ok.2 ⟨by dsimp only; omega, ?_⟩⟩
  rw [Nat.add_sub_cancel_left, slice, slice, slice, drop_take, drop_drop, take_take, min_eq_left (by omega)]

theorem composes_nil (hs : s.asRef = .ok view) : Composes s view [] := by
  intro taken htaken
  obtain rfl := prefix_nil.1 htaken
  exact congrArg Except.ok hs

theorem composes_cons : Composes s view (r :: rs) ↔ s.asRef = .ok view ∧ ∀ taken, taken <+: rs →
    (s.subrange r >>= taken.foldlM subrange).map asRef = (index view r >>= taken.foldlM index).map .ok := by
  constructor
  · intro h
    refine ⟨Except.ok.inj (h [] nil_prefix), fun taken htaken => ?_⟩
    simpa only [foldlM_cons] using h (r :: taken) (prefix_cons_inj r |>.mpr htaken)
  · rintro ⟨hs, h⟩ taken htaken
    obtain rfl | ⟨rest, rfl, hrest⟩ := prefix_cons_iff.1 htaken
    · exact congrArg Except.ok hs
    · simpa only [foldlM_cons] using h rest hrest

theorem composes_iff (hs : s.asRef = .ok view) : Composes s view rs ↔ Aligned s.start view.length rs := by
  induction rs generalizing s view with
  | nil => exact iff_of_true (composes_nil hs) trivial
  | cons r rs ih =>
    rw [composes_cons, Aligned, and_iff_right hs, index]
    split_ifs with hin
    · obtain ⟨s', hsub, hstart, hs'⟩ := subrange_inside hs hin
      have hlen : (slice view r.start r.len).length = r.len := length_slice (by rw [IndexRange.len]; omega)
      have hrest := ih hs'
      rw [hstart, hlen] at hrest
      rw [hsub]
      exact hrest
    · -- slicing panics here, so the call has to
      constructor
      · intro h
        by_contra hfits
        have hfirst := h [] nil_prefix
        rw [subrange, hs, ok_bind, if_neg hfits] at hfirst
        cases hfirst
      · intro hout taken _
        rw [subrange, hs, ok_bind, if_pos hout]
        rfl

end OwnedSlice
end WasabiOS
