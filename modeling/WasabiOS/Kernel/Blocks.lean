import WasabiOS.Kernel.Paging
import WasabiOS.Machinery.Pool
import WasabiOS.Shared.RangeSetAllocate

/-!
# Kernel/Blocks — pages and frames as blocks of addresses

Both allocators hand out **blocks**: aligned intervals of one of the three sizes.  Blocks side by side
cover an interval (`Covers.append`, `covers_consecutive`), and two aligned blocks that meet share more
than a first byte (`exists_shared`).
-/

open Machinery IntervalList
namespace WasabiOS
open Finset List

/-- A page or frame, as the addresses it covers. -/
structure MemBlock where
  size : PageSize
  start : ℕ
  deriving DecidableEq, Repr

namespace MemBlock
variable {U V : List MemBlock} {e s : ℕ}

/-- The addresses of the block. -/
def addrs (b : MemBlock) : Finset ℕ := Finset.Ico b.start (b.start + b.size.SIZE.toNat)

/-- `n` consecutive blocks. -/
def consecutive (S : PageSize) (start : ℕ) : ℕ → List MemBlock
  | 0 => []
  | n + 1 => ⟨S, start⟩ :: consecutive S (start + S.SIZE.toNat) n

variable {S : PageSize} {start n : ℕ} {b b' : MemBlock}

theorem mem_addrs {x : ℕ} : x ∈ b.addrs ↔ b.start ≤ x ∧ x < b.start + b.size.SIZE.toNat := mem_Ico

theorem start_mem_addrs : b.start ∈ b.addrs := mem_addrs.2 ⟨le_refl _, Nat.lt_add_of_pos_right b.size.SIZE_pos⟩

/-- The blocks are aligned and disjoint, and cover the addresses from `s` to `e`. -/
structure Covers (U : List MemBlock) (s e : ℕ) : Prop where
  le : s ≤ e
  owned : Pool.owned addrs U = Finset.Ico s e
  exclusive : Pool.Exclusive addrs U
  aligned : ∀ u ∈ U, 4096 ∣ u.start

theorem covers_nil (s : ℕ) : Covers [] s s where
  le := le_refl s
  owned := (Finset.Ico_self s).symm
  exclusive := List.Pairwise.nil
  aligned := forall_mem_nil _

theorem covers_singleton (h : 4096 ∣ b.start) : Covers [b] b.start (b.start + b.size.SIZE.toNat) where
  le := Nat.le_add_right _ _
  owned := union_empty _
  exclusive := List.pairwise_singleton _ _
  aligned := fun _ hu => List.mem_singleton.1 hu ▸ h

theorem Covers.append {m : ℕ} (hU : Covers U s m) (hV : Covers V m e) :
    Covers (U ++ V) s e where
  le := hU.le.trans hV.le
  owned := by rw [Pool.owned_append, hU.owned, hV.owned, Finset.Ico_union_Ico_eq_Ico hU.le hV.le]
  exclusive := Pool.exclusive_append.2 ⟨hU.exclusive, hV.exclusive, by
    rw [hU.owned, hV.owned]
    exact Finset.Ico_disjoint_Ico_consecutive s m e⟩
  aligned := fun u hu => (mem_append.1 hu).elim (hU.aligned u) (hV.aligned u)

/-- **Consecutive blocks cover an interval.** -/
theorem covers_consecutive (h : 4096 ∣ start) : Covers (consecutive S start n) start (start + n * S.SIZE.toNat) := by
  induction n generalizing start with
  | zero =>
    rw [zero_mul]
    exact covers_nil start
  | succ n ih =>
    have hrest := ih (Nat.dvd_add h S.dvd_SIZE)
    rw [Nat.succ_mul, add_comm _ S.SIZE.toNat, ← add_assoc]
    exact (covers_singleton (b := ⟨S, start⟩) h).append hrest

/-- Aligned blocks that share an address share one that starts neither of them. -/
theorem exists_shared (h : 4096 ∣ b.start) (h' : 4096 ∣ b'.start) (hmeet : ¬ Disjoint b.addrs b'.addrs) :
    ∃ x, x ∈ b.addrs ∧ x ∈ b'.addrs ∧ x ≠ b.start ∧ x ≠ b'.start := by
  obtain ⟨x, hx, hx'⟩ := not_disjoint_iff.1 hmeet
  have hS := b.size.dvd_SIZE
  have hS' := b'.size.dvd_SIZE
  rw [mem_addrs] at hx hx'
  -- the second byte of the 4KiB the shared address is in
  refine ⟨x / 4096 * 4096 + 1, ?_⟩
  rw [mem_addrs, mem_addrs]
  omega

/-- What a call may take out of the free set `F` for the blocks `U` it hands out: all of them, but
perhaps for their first bytes. -/
structure Taking (F : Finset ℕ) (U : List MemBlock) (T : Finset ℕ) : Prop where
  handed : Pool.owned addrs U ⊆ F
  exclusive : Pool.Exclusive addrs U
  aligned : ∀ u ∈ U, 4096 ∣ u.start
  sub : T ⊆ F
  almost : ∀ u ∈ U, u.addrs.erase u.start ⊆ T

theorem taking_nil (F : Finset ℕ) : Taking F [] ∅ where
  handed := empty_subset F
  exclusive := List.Pairwise.nil
  aligned := forall_mem_nil _
  sub := empty_subset F
  almost := forall_mem_nil _

/-- An interval that ends with the blocks may be taken for them. -/
theorem Covers.taking {F : Finset ℕ} {base : ℕ} (h : Covers U s e) (hbase : base ≤ s)
    (hsub : Finset.Ico base e ⊆ F) : Taking F U (Finset.Ico base e) := by
  have hin : Pool.owned addrs U ⊆ Finset.Ico base e := by
    rw [h.owned]
    exact Finset.Ico_subset_Ico hbase (le_refl e)
  refine ⟨hin.trans hsub, h.exclusive, h.aligned, hsub, fun u hu => ?_⟩
  refine (erase_subset _ _).trans (Finset.Subset.trans ?_ hin)
  exact fun x hx => Pool.mem_owned.2 ⟨u, hu, hx⟩

variable {N : ℕ} {s s' : RangeSet N} {U freed : List MemBlock} {lossless : Prop}

/-- `s'` is `s` after the blocks `U` have been handed out of it. -/
structure HandsOut (s : RangeSet N) (lossless : Prop) (U : List MemBlock) (s' : RangeSet N) : Prop where
  canonical : RangeSet.Canonical s'.entries
  taken : ∃ T, Taking s.addrs U T ∧ s'.addrs = s.addrs \ T ∧ (lossless ↔ T = Pool.owned addrs U)

theorem handsOut_nil (hs : RangeSet.Canonical s.entries) (hl : lossless) : HandsOut s lossless [] s :=
  ⟨hs, ∅, taking_nil _, sdiff_empty.symm, iff_of_true hl rfl⟩

/-- **An allocation** finds nothing, or any blocks that cover the bytes it found are handed out, without
a loss exactly if it needs no padding. -/
theorem allocatePrefer_handsOut {size align : UInt64} {request : RegionRequest} {o : Option UInt64}
    (hs : RangeSet.Canonical s.entries) (hrequest : ∀ r ∈ request.regions, r.Proper)
    (h : s.allocatePrefer size align request = .ok (o, s')) :
    (o = none ∧ s' = s ∧ s.Unpadded size align request) ∨
    (∃ p, o = some p ∧ ∀ U, Covers U p.toNat (p.toNat + size.toNat) →
      HandsOut s (s.Unpadded size align request) U s') := by
  rcases RangeSet.allocatePrefer_inv hs hrequest h with
    hnone | ⟨p, k, base, rfl, hsize, -, hs', hserved, haddrs, hunpadded⟩
  · exact Or.inl hnone
  refine Or.inr ⟨p, rfl, fun U hU => ⟨hs', _, hU.taking hserved.base_le hserved.subset, haddrs, ?_⟩⟩
  rw [hunpadded, hU.owned]
  constructor
  · rintro rfl
    rfl
  · intro heq
    have hmem : base ∈ Finset.Ico p.toNat (p.toNat + size.toNat) := by
      rw [← heq, mem_Ico]
      have hbase := hserved.base_le
      omega
    exact le_antisymm hserved.base_le (mem_Ico.1 hmem).1

/-- `s'` is `s` after the blocks `U` have been given back to it. -/
structure GivesBack (s : RangeSet N) (U : List MemBlock) (s' : RangeSet N) : Prop where
  canonical : RangeSet.Canonical s'.entries
  addrs_eq : s'.addrs = s.addrs ∪ Pool.owned addrs U

theorem givesBack_nil (hs : RangeSet.Canonical s.entries) : GivesBack s [] s := ⟨hs, (union_empty _).symm⟩

theorem GivesBack.append {s'' : RangeSet N} (h : GivesBack s U s')
    (h' : GivesBack s' V s'') : GivesBack s (U ++ V) s'' where
  canonical := h'.canonical
  addrs_eq := by rw [h'.addrs_eq, h.addrs_eq, Pool.owned_append, union_assoc]

theorem GivesBack.perm (h : GivesBack s U s') (hp : U.Perm V) : GivesBack s V s' :=
  ⟨h.canonical, h.addrs_eq.trans (by rw [Pool.owned_perm hp])⟩

/-- **What a call does to the free addresses**: it hands out blocks, or gives blocks back. -/
inductive Effect (freed : List MemBlock) (s : RangeSet N) (lossless : Prop) (U : List MemBlock) (s' : RangeSet N) : Prop
  | take (hfreed : freed = []) (h : HandsOut s lossless U s')
  | give (hU : U = []) (h : GivesBack s freed s') (hloss : lossless)

theorem Effect.canonical (h : Effect freed s lossless U s') : RangeSet.Canonical s'.entries := by
  cases h with
  | take _ h => exact h.canonical
  | give _ h _ => exact h.canonical
end MemBlock

variable {S : PageSize}
namespace Aligned
variable {Valid : ℕ → Prop}

/-- A page or frame as a block. -/
def block (u : Aligned Valid S) : MemBlock := ⟨S, u.start.toNat⟩

/-- …and as a range. -/
def range (u : Aligned Valid S) : Range := ⟨u.start, u.start + (S.SIZE - 1)⟩

variable (u : Aligned Valid S)

theorem range_past : u.range.past = u.start.toNat + S.SIZE.toNat := by
  have hle := u.start_add_SIZE_le
  have hpos := S.SIZE_pos
  have hlast := S.toNat_SIZE_sub_one
  have hend : (u.start + (S.SIZE - 1)).toNat = u.start.toNat + (S.SIZE - 1).toNat := U64.toNat_add_of_lt (by omega)
  change (u.start + (S.SIZE - 1)).toNat + 1 = _
  omega

theorem range_addrs : u.range.addrs = u.block.addrs := by
  rw [Range.addrs, range_past]
  rfl

theorem range_long : u.range.lo + 1 < u.range.past := by
  have hle := S.le_SIZE
  have hlo : u.range.lo = u.start.toNat := rfl
  rw [range_past, hlo]
  omega

theorem range_proper : u.range.Proper := Nat.lt_of_succ_lt u.range_long

theorem block_aligned : 4096 ∣ u.block.start := S.dvd_SIZE.trans u.aligned

theorem covers_block : MemBlock.Covers [u.block] u.start.toNat (u.start.toNat + S.SIZE.toNat) :=
  MemBlock.covers_singleton u.block_aligned

/-- Inserting the range of a unit gives it back. -/
theorem insert_givesBack {N : ℕ} {s s' : RangeSet N} (hs : RangeSet.Canonical s.entries)
    (h : s.insert u.range = .ok s') : MemBlock.GivesBack s [u.block] s' := by
  obtain ⟨l, hl, hcover, heq⟩ := RangeSet.insert_eq hs u.range_proper
  cases RangeSet.ofEntries_eq_ok.1 (heq.symm.trans h)
  refine ⟨hl, hcover.trans ?_⟩
  rw [Pool.owned_cons, Pool.owned_nil, union_empty, range_addrs]
end Aligned
end WasabiOS
