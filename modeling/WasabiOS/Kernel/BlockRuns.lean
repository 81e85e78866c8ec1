import WasabiOS.Kernel.Blocks

/-!
# Kernel/BlockRuns — runs of an allocator of blocks

An allocator of pages or frames is a range set of free addresses and calls on it, each of which has an
`Effect`: it hands out blocks or gives blocks back.  Over whole runs

* `held_run` — **the blocks held are disjoint**, whatever padding or stray first bytes the calls leave:
  what they leave is less than a block,
* `conserved_iff` — the free addresses stay the initial ones without the blocks held **exactly if** every
  call is lossless.
-/

open Machinery
namespace WasabiOS
open Pool List Finset Run
namespace MemBlock
variable {N : ℕ} {σ Call ε : Type}

/-- An allocator that keeps the free addresses in a range set.  A call that returns an error hands out
nothing. -/
def system (ranges : σ → RangeSet N) (run : Call → Prog σ ε (List MemBlock)) (freed : Call → List MemBlock) :
    Pool.System σ Call MemBlock where
  free a := (ranges a).addrs
  call c a :=
    match run c a with
    | .ok U a' => some (U, a')
    | .err _ a' => some ([], a')
    | .fault _ => none
  freed := freed

/-- The calls of the allocator have effects. -/
def Effects (ranges : σ → RangeSet N) (run : Call → Prog σ ε (List MemBlock)) (freed : Call → List MemBlock)
    (lossless : Call → σ → Prop) : Prop :=
  ∀ c a, RangeSet.Canonical (ranges a).entries →
    (run c).wlp (fun U a' => Effect (freed c) (ranges a) (lossless c a) U (ranges a'))
      (fun _ a' => Effect (freed c) (ranges a) (lossless c a) [] (ranges a')) a

variable {ranges : σ → RangeSet N} {run : Call → Prog σ ε (List MemBlock)} {freed : Call → List MemBlock}
  {lossless : Call → σ → Prop} {c : Call} {a a' : σ} {U : List MemBlock} {F0 : Finset ℕ}
  {s s' : Pool.State σ MemBlock} {calls : List Call}

section
variable (h : Effects ranges run freed lossless) (ha : RangeSet.Canonical (ranges a).entries)
include h ha

theorem Effects.call (hcall : (system ranges run freed).call c a = some (U, a')) :
    Effect (freed c) (ranges a) (lossless c a) U (ranges a') := by
  have hc := h c a ha
  unfold Prog.wlp at hc
  simp only [system] at hcall
  cases hrun : run c a with
  | ok V b =>
    rw [hrun] at hc hcall
    cases hcall
    exact hc
  | err e b =>
    rw [hrun] at hc hcall
    cases hcall
    exact hc
  | fault f =>
    rw [hrun] at hcall
    cases hcall

theorem Effects.pool (hcall : (system ranges run freed).call c a = some (U, a')) :
    RangeSet.Canonical (ranges a').entries ∧ Pool.Effect (system ranges run freed) addrs c a U a' (lossless c a) := by
  have heff := h.call ha hcall
  refine ⟨heff.canonical, ?_⟩
  cases heff with
  | take hfreed hout =>
    obtain ⟨T, hT, haddrs, hloss⟩ := hout.taken
    exact .take T hfreed hT.handed hT.exclusive hT.sub haddrs hloss
  | give hU hback hloss => exact .give hU hback.addrs_eq hloss

/-- **Conservation**, exactly. -/
theorem conserved_iff (hlegal : Along (Pool.step (system ranges run freed)) (fun c s =>
      Pool.Legal (system ranges run freed) c s ∧ Pool.Returns (system ranges run freed) c s)
      calls ⟨a, []⟩) :
    Safe (Pool.step (system ranges run freed))
        (Pool.Conserved (system ranges run freed) addrs (ranges a).addrs) calls ⟨a, []⟩ ↔
      Along (Pool.step (system ranges run freed)) (fun c s => lossless c s.alloc) calls ⟨a, []⟩ :=
  safe_conserved_iff (fun c a U a' (ha : RangeSet.Canonical (ranges a).entries) hcall => h.pool ha hcall) ha hlegal
end

/-- The blocks held are aligned, disjoint and, but perhaps for their first bytes, not free. -/
structure Held (ranges : σ → RangeSet N) (F0 : Finset ℕ) (s : Pool.State σ MemBlock) : Prop where
  canonical : RangeSet.Canonical (ranges s.alloc).entries
  free : (ranges s.alloc).addrs ⊆ F0
  within : owned addrs s.live ⊆ F0
  aligned : ∀ u ∈ s.live, 4096 ∣ u.start
  exclusive : Pool.Exclusive addrs s.live
  almost : ∀ u ∈ s.live, Disjoint (u.addrs.erase u.start) (ranges s.alloc).addrs

/-- Free blocks are disjoint from those held. -/
theorem Held.disjoint (hs : Held ranges F0 s) (hU : owned addrs U ⊆ (ranges s.alloc).addrs)
    (haligned : ∀ u ∈ U, 4096 ∣ u.start) : Disjoint (owned addrs U) (owned addrs s.live) := by
  rw [Finset.disjoint_left]
  intro x hxU hxL
  obtain ⟨u, hu, hxu⟩ := mem_owned.1 hxU
  obtain ⟨v, hv, hxv⟩ := mem_owned.1 hxL
  -- blocks that meet share a byte that is not the first one
  obtain ⟨y, hyu, hyv, -, hne⟩ := exists_shared (haligned u hu) (hs.aligned v hv) (not_disjoint_iff.2 ⟨x, hxu, hxv⟩)
  exact disjoint_left.1 (hs.almost v hv) (mem_erase.2 ⟨hne, hyv⟩) (hU (mem_owned.2 ⟨u, hu, hyu⟩))

theorem Held.take {T : Finset ℕ} (hs : Held ranges F0 s)
    (hcanon : RangeSet.Canonical (ranges s'.alloc).entries) (hT : Taking (ranges s.alloc).addrs U T)
    (haddrs : (ranges s'.alloc).addrs = (ranges s.alloc).addrs \ T) (hlive : s'.live = U ++ s.live) :
    Held ranges F0 s' where
  canonical := hcanon
  free := haddrs ▸ sdiff_subset.trans hs.free
  within := by
    rw [hlive, owned_append]
    exact union_subset (hT.handed.trans hs.free) hs.within
  aligned := by
    rw [hlive]
    exact fun u hu => (mem_append.1 hu).elim (hT.aligned u) (hs.aligned u)
  exclusive := by
    rw [hlive]
    exact exclusive_append.2 ⟨hT.exclusive, hs.exclusive, hs.disjoint hT.handed hT.aligned⟩
  almost := by
    rw [hlive, haddrs]
    intro u hu
    rcases mem_append.1 hu with hu | hu
    · exact disjoint_of_subset_left (hT.almost u hu) disjoint_sdiff
    · exact disjoint_of_subset_right sdiff_subset (hs.almost u hu)

theorem Held.give {freed : List MemBlock} (hs : Held ranges F0 s)
    (hback : GivesBack (ranges s.alloc) freed (ranges s'.alloc))
    (hperm : (freed ++ s'.live).Perm s.live) : Held ranges F0 s' := by
  have hwithin := hs.within
  rw [← owned_perm hperm, owned_append] at hwithin
  obtain ⟨-, hex, hdisj⟩ := exclusive_append.1 (hs.exclusive.perm hperm.symm)
  have hmem : ∀ u ∈ s'.live, u ∈ s.live := fun u hu => hperm.subset (mem_append_right _ hu)
  refine ⟨hback.canonical, ?_, union_subset_right hwithin, fun u hu => hs.aligned u (hmem u hu), hex, fun u hu => ?_⟩
  · rw [hback.addrs_eq]
    exact union_subset hs.free (union_subset_left hwithin)
  · rw [hback.addrs_eq]
    refine disjoint_union_right.2 ⟨hs.almost u (hmem u hu), ?_⟩
    refine disjoint_of_subset_left ((erase_subset _ _).trans fun x hx => ?_) hdisj.symm
    exact mem_owned.2 ⟨u, hu, hx⟩

/-- **One call** keeps the blocks disjoint. -/
theorem Held.step (h : Effects ranges run freed lossless) (hs : Held ranges F0 s)
    (hlegal : Pool.Legal (system ranges run freed) c s)
    (hstep : s' ∈ Pool.step (system ranges run freed) c s) : Held ranges F0 s' := by
  obtain ⟨U, hcall, hlive⟩ := mem_step.1 hstep
  cases h.call hs.canonical hcall with
  | take hfreed hout =>
    obtain ⟨T, hT, haddrs, -⟩ := hout.taken
    have hlive' : s'.live = U ++ s.live := by
      rw [hlive, show (system ranges run freed).freed c = [] from hfreed, diff_nil]
    exact hs.take hout.canonical hT haddrs hlive'
  | give hU hback _ =>
    rw [hU, nil_append] at hlive
    exact hs.give hback (hlive ▸ hlegal.perm)

/-- **A run** keeps the blocks disjoint. -/
theorem held_run (h : Effects ranges run freed lossless) (ha : RangeSet.Canonical (ranges a).entries)
    (hlegal : Along (Pool.step (system ranges run freed)) (Pool.Legal (system ranges run freed))
      calls ⟨a, []⟩) (hs : s ∈ runFrom (Pool.step (system ranges run freed)) calls ⟨a, []⟩) :
    Held ranges (ranges a).addrs s := by
  refine runFrom_of_along (fun c s s' hs hl hstep => hs.step h hl hstep) ?_ hlegal hs
  exact ⟨ha, Finset.Subset.refl _, empty_subset _, forall_mem_nil _, List.Pairwise.nil, forall_mem_nil _⟩
end MemBlock
end WasabiOS
