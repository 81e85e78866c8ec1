import Mathlib.Algebra.Order.Ring.Nat
import WasabiOS.Machinery.U64

/-!
# Machinery/Allocator — an allocator that is assumed correct

An `Allocator` hands out regions of `[lo, hi)` and takes them back.  What it is trusted with are the
fields: a region is aligned, inside, and apart from all live ones.  When it refuses is its own affair.

`Bump` is one that never reuses memory.
-/

namespace Machinery
open Option Function

/-- The size and alignment of an allocation; an alignment is a power of two. -/
structure Layout where
  size : ℕ
  align : ℕ
  isPowerOfTwo : ∃ k, align = 2 ^ k
  deriving DecidableEq

/-- The layout of `size` bytes at a multiple of `2 ^ k`. -/
def Layout.ofPow (size k : ℕ) : Layout := ⟨size, 2 ^ k, k, rfl⟩

theorem Layout.align_pos (l : Layout) : 0 < l.align := by
  obtain ⟨k, hk⟩ := l.isPowerOfTwo
  rw [hk]
  exact Nat.two_pow_pos k

/-- An allocator of `[lo, hi)` with states `H`. -/
structure Allocator (H : Type) (lo hi : ℕ) where
  alloc : Layout → H → Option (ℕ × H)
  free : ℕ → Layout → H → H
  /-- the regions that are handed out -/
  live : H → ℕ → Option Layout
  alloc_aligned : ∀ {l h p h'}, alloc l h = some (p, h') → l.align ∣ p
  alloc_inside : ∀ {l h p h'}, alloc l h = some (p, h') → lo ≤ p ∧ p + l.size ≤ hi
  alloc_fresh : ∀ {l h p h'}, alloc l h = some (p, h') → live h p = none
  alloc_apart : ∀ {l h p h'}, alloc l h = some (p, h') → ∀ {q k}, live h q = some k →
    p + l.size ≤ q ∨ q + k.size ≤ p
  alloc_live : ∀ {l h p h'}, alloc l h = some (p, h') → live h' = Function.update (live h) p (some l)
  free_live : ∀ {l h p}, live h p = some l → live (free p l h) = Function.update (live h) p none

/-! ## An allocator that never reuses memory -/

/-- What is handed out lies below `next`. -/
structure Bump (lo hi : ℕ) where
  next : ℕ
  live : ℕ → Option Layout
  le_next : lo ≤ next
  below : ∀ q k, live q = some k → q + max 1 k.size ≤ next

namespace Bump
variable {lo hi : ℕ}

/-- Nothing is handed out. -/
def empty (lo hi : ℕ) : Bump lo hi where
  next := lo
  live _ := none
  le_next := le_rfl
  below _ _ h := absurd h (some_ne_none _).symm

/-- The next region. -/
def place (l : Layout) (h : Bump lo hi) : ℕ := U64.alignUp l.align h.next

theorem next_le_place (l : Layout) (h : Bump lo hi) : h.next ≤ h.place l := U64.le_alignUp

theorem below_update (l : Layout) (h : Bump lo hi) (q : ℕ) (k : Layout)
    (hq : Function.update h.live (h.place l) (some l) q = some k) :
    q + max 1 k.size ≤ h.place l + max 1 l.size := by
  by_cases heq : q = h.place l
  · rw [heq, update_self] at hq
    cases hq
    rw [heq]
  · rw [update_of_ne heq] at hq
    exact (h.below q k hq).trans ((h.next_le_place l).trans le_self_add)

theorem below_free (h : Bump lo hi) (p q : ℕ) (k : Layout)
    (hq : Function.update h.live p none q = some k) : q + max 1 k.size ≤ h.next := by
  by_cases heq : q = p
  · rw [heq, update_self] at hq
    cases hq
  · rw [update_of_ne heq] at hq
    exact h.below q k hq

/-- The state after a region has been handed out. -/
def grow (l : Layout) (h : Bump lo hi) : Bump lo hi where
  next := h.place l + max 1 l.size
  live := Function.update h.live (h.place l) (some l)
  le_next := (h.le_next.trans (h.next_le_place l)).trans (Nat.le_add_right _ _)
  below := h.below_update l

/-- Forget a region. -/
def forget (p : ℕ) (_ : Layout) (h : Bump lo hi) : Bump lo hi where
  next := h.next
  live := Function.update h.live p none
  le_next := h.le_next
  below := h.below_free p

/-- Hand out the next region, if it is inside. -/
def take (l : Layout) (h : Bump lo hi) : Option (ℕ × Bump lo hi) :=
  if h.place l + l.size ≤ hi then some (h.place l, h.grow l) else none

theorem take_eq {l : Layout} {h h' : Bump lo hi} {p : ℕ} (ht : h.take l = some (p, h')) :
    p = h.place l ∧ h' = h.grow l ∧ h.place l + l.size ≤ hi := by
  unfold take at ht
  split at ht
  case isTrue hle =>
    cases ht
    exact ⟨rfl, rfl, hle⟩
  case isFalse => cases ht

/-- **The bump allocator.** -/
def allocator (lo hi : ℕ) : Allocator (Bump lo hi) lo hi where
  alloc l h := h.take l
  free := forget
  live := live
  alloc_aligned {l _ _ _} ht := by
    obtain ⟨rfl, -, -⟩ := take_eq ht
    exact U64.dvd_alignUp l.align_pos
  alloc_inside {_ h _ _} ht := by
    obtain ⟨rfl, -, hle⟩ := take_eq ht
    exact ⟨h.le_next.trans (h.next_le_place _), hle⟩
  alloc_fresh {l h _ _} ht := by
    obtain ⟨rfl, -, -⟩ := take_eq ht
    refine eq_none_iff_forall_not_mem.2 fun k hk => ?_
    have hlt := (h.below _ k hk).trans (h.next_le_place l)
    omega
  alloc_apart {l h _ _} ht {q k} hq := by
    obtain ⟨rfl, -, -⟩ := take_eq ht
    have hlt := (h.below q k hq).trans (h.next_le_place l)
    omega
  alloc_live ht := by
    obtain ⟨rfl, rfl, -⟩ := take_eq ht
    rfl
  free_live _ := rfl
end Bump
end Machinery
