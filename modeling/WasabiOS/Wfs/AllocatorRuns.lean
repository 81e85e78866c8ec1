import WasabiOS.Machinery.Run
import WasabiOS.Wfs.AllocatorSpec

/-!
# Wfs/AllocatorRuns — conservation of blocks over runs of the allocator

A run calls the allocator any number of times; a `Ledger` keeps the blocks that are handed out.
Callers give back what they hold, each block once (`Legal`), in groups of their choice.  A run is
**conserving** if at every point the free set is the initial free set without the blocks handed out,
and the free list is consistent.

**`conserved_run_iff`**: a run is conserving exactly if every group is given back in a state in which
it is `Freeable` — there is a free block after it or right before it, and none right behind it.
-/

open Machinery Prog
namespace WasabiOS
open Finset Run
namespace BlockAllocator

/-- A call to the allocator. -/
inductive AllocCall where
  | allocate (count : ℕ)
  | allocateGroup (size : ℕ)
  | allocateBlock
  | free (list : BlockGroupList)
  | freeGroup (group : BlockGroup)
  | freeBlock (block : LBA)
  deriving DecidableEq, Repr

/-- The allocator and the blocks that are handed out. -/
structure Ledger where
  allocator : BlockAllocator
  out : Finset ℕ

/-- Book the end of a call: the blocks out after it, if it returns. -/
def Ledger.book {α : Type} (s : Ledger) (out : α → Finset ℕ) : Outcome BlockAllocator FsError α → Option Ledger
  | .ok r a => some ⟨a, out r⟩
  | .err _ a => some ⟨a, s.out⟩
  | .fault _ => none

/-- The ledger after a call; nothing if the allocator panics. -/
def AllocCall.step : AllocCall → Ledger → Option Ledger
  | .allocate n, s => s.book (fun list => s.out ∪ cover list.groups) (BlockAllocator.allocate n s.allocator)
  | .allocateGroup n, s => s.book (fun g => s.out ∪ g.blocks) (BlockAllocator.allocateGroup n s.allocator)
  | .allocateBlock, s => s.book (fun b => s.out ∪ {b.get}) (BlockAllocator.allocateBlock s.allocator)
  | .free list, s => s.book (fun _ => s.out \ cover list.groups) (freeList list s.allocator)
  | .freeGroup g, s => s.book (fun _ => s.out \ g.blocks) (BlockAllocator.freeGroup g s.allocator)
  | .freeBlock b, s => s.book (fun _ => s.out \ {b.get}) (BlockAllocator.freeBlock b s.allocator)

/-- The groups a call gives back, in order. -/
def AllocCall.freed : AllocCall → List BlockGroup
  | .free list => list.groups
  | .freeGroup g => [g]
  | .freeBlock b => [.single b]
  | _ => []

/-- The groups are handed out, and no block is in two of them. -/
def Returned (out : Finset ℕ) : List BlockGroup → Prop
  | [] => True
  | g :: gs => g.blocks ⊆ out ∧ Returned (out \ g.blocks) gs

instance instDecidableReturned : ∀ (out : Finset ℕ) (gs : List BlockGroup), Decidable (Returned out gs)
  | _, [] => inferInstanceAs (Decidable True)
  | out, g :: gs =>
    have : Decidable (Returned (out \ g.blocks) gs) := instDecidableReturned _ gs
    inferInstanceAs (Decidable (g.blocks ⊆ out ∧ Returned (out \ g.blocks) gs))

/-- A caller asks for at least one block, as the assertions demand, and gives back what it holds. -/
def AllocCall.Legal (c : AllocCall) (s : Ledger) : Prop :=
  Returned s.out c.freed ∧ c ≠ .allocate 0 ∧ c ≠ .allocateGroup 0

instance (c : AllocCall) (s : Ledger) : Decidable (c.Legal s) := inferInstanceAs (Decidable (_ ∧ _ ∧ _))

/-- Every group is freeable when its turn comes. -/
def FreeableAll (F : Finset ℕ) : List BlockGroup → Prop
  | [] => True
  | g :: gs => Freeable F g ∧ FreeableAll (F ∪ g.blocks) gs

instance instDecidableFreeableAll : ∀ (F : Finset ℕ) (gs : List BlockGroup), Decidable (FreeableAll F gs)
  | _, [] => inferInstanceAs (Decidable True)
  | F, g :: gs =>
    have : Decidable (FreeableAll (F ∪ g.blocks) gs) := instDecidableFreeableAll _ gs
    inferInstanceAs (Decidable (Freeable F g ∧ FreeableAll (F ∪ g.blocks) gs))

/-- Every group the call gives back is freeable when its turn comes. -/
def AllocCall.GivesBack (c : AllocCall) (s : Ledger) : Prop := FreeableAll s.allocator.freeBlockSet c.freed

instance (c : AllocCall) (s : Ledger) : Decidable (c.GivesBack s) := instDecidableFreeableAll _ _

/-- Every block of `F0` is free or handed out, and the free list is consistent. -/
structure Conserved (F0 : Finset ℕ) (s : Ledger) : Prop where
  out_subset : s.out ⊆ F0
  free_eq : s.allocator.freeBlockSet = F0 \ s.out
  consistent : s.allocator.checkConsistent = .ok true

/-- The allocators a run starts from: an empty one, or one loaded from a device, with all blocks in
the address space. -/
inductive Initial : BlockAllocator → Prop
  | empty {usage : List LBA} {maxLba : LBA} {a : BlockAllocator} : BlockAllocator.empty usage maxLba = .ok a → Initial a
  | load {D : Type} [BlockDevice D Block] {ptr : DevicePointer .freeBlockGroups} {d d' : D}
      {a : BlockAllocator} : BlockAllocator.load ptr d = .ok a d' → Addressable a.free → Initial a

/-! ## Giving groups back -/

/-- All numbers of the set are block addresses. -/
def Addresses (F : Finset ℕ) : Prop := ∀ b ∈ F, b < u64Size - 1

theorem Addresses.valid {F : Finset ℕ} (hF : Addresses F) {g : BlockGroup} (h : g.blocks ⊆ F) :
    g.Valid := by
  have hlt := g.start_lt_past
  have hlast := hF (g.past - 1) (h (BlockGroup.mem_blocks.2 ⟨by omega, by omega⟩))
  unfold BlockGroup.Valid
  omega

theorem Returned.cover_subset : ∀ {gs : List BlockGroup} {out : Finset ℕ}, Returned out gs → cover gs ⊆ out
  | [], _, _ => empty_subset _
  | _ :: _, _, h => union_subset h.1 (h.2.cover_subset.trans sdiff_subset)

/-- Giving groups back never adds any other block to the free set. -/
theorem freeGroups_wlp {ε : Type} : ∀ {gs : List BlockGroup} {a : BlockAllocator} {out : Finset ℕ},
    Separated a.free → Addresses out → Disjoint out (cover a.free) → Returned out gs →
      (freeGroups gs : Prog BlockAllocator ε Unit).wlp
        (fun _ a' => Separated a'.free ∧ cover a'.free ⊆ cover a.free ∪ cover gs)
        (fun _ _ => False) a
  | [], a, _, hc, _, _, _ => ⟨hc, subset_union_left⟩
  | g :: gs, a, out, hc, hout, hdisj, hret => by
    have hv := hout.valid hret.1
    have hdisj_g := disjoint_of_subset_left hret.1 hdisj
    rw [freeGroups, wlp_bind]
    have hrest {a' : BlockAllocator} (hc' : Separated a'.free) (hsub : cover a'.free ⊆ cover a.free ∪ g.blocks) :
        (freeGroups gs : Prog BlockAllocator ε Unit).wlp
          (fun _ a'' => Separated a''.free ∧ cover a''.free ⊆ cover a.free ∪ cover (g :: gs))
          (fun _ _ => False) a' := by
      have hdisj' : Disjoint (out \ g.blocks) (cover a'.free) := by
        refine disjoint_of_subset_right hsub (disjoint_union_right.2 ⟨?_, ?_⟩)
        · exact disjoint_of_subset_left sdiff_subset hdisj
        · exact sdiff_disjoint
      refine wlp_mono (freeGroups_wlp hc' (fun b hb => hout b (sdiff_subset hb)) hdisj'
        hret.2) (fun _ a'' h => ⟨h.1, h.2.trans ?_⟩) fun _ _ h => h
      rw [cover_cons, ← union_assoc]
      exact union_subset_union_left hsub
    by_cases hfree : Freeable (cover a.free) g
    · have hspec := freeGroup_wp (ε := ε) hv hc hdisj_g hfree
      rw [wp_false_iff] at hspec
      obtain ⟨_, a', ha', l', rfl, hsep, hcover⟩ := hspec
      exact (wlp_of_ok ha').2 (hrest hsep hcover.subset)
    · refine wlp_mono (freeGroup_not_freeable (ε := ε) hv hc hdisj_g hfree) ?_ fun _ _ h => h
      rintro _ _ rfl
      exact hrest hc subset_union_left

/-- **Groups come back exactly if each is freeable in its turn**: a group that is not is lost or a
panic, and nothing that follows brings it back. -/
theorem freeGroups_iff {ε : Type} : ∀ {gs : List BlockGroup} {a : BlockAllocator} {out : Finset ℕ},
    Separated a.free → Addresses out → Disjoint out (cover a.free) → Returned out gs →
      ((∃ a', (freeGroups gs : Prog BlockAllocator ε Unit) a = .ok () a' ∧ Separated a'.free ∧
        cover a'.free = cover a.free ∪ cover gs) ↔ FreeableAll (cover a.free) gs)
  | [], a, _, hc, _, _, _ => iff_of_true ⟨a, rfl, hc, (union_empty _).symm⟩ trivial
  | g :: gs, a, out, hc, hout, hdisj, hret => by
    have hv := hout.valid hret.1
    have hdisj_g := disjoint_of_subset_left hret.1 hdisj
    have hout' : Addresses (out \ g.blocks) := fun b hb => hout b (sdiff_subset hb)
    have hdisj_out : Disjoint (out \ g.blocks) (cover a.free) := disjoint_of_subset_left sdiff_subset hdisj
    by_cases hfree : Freeable (cover a.free) g
    · have hspec := freeGroup_wp (ε := ε) hv hc hdisj_g hfree
      rw [wp_false_iff] at hspec
      obtain ⟨_, _, ha', l', rfl, hsep, hcover⟩ := hspec
      have hdisj' : Disjoint (out \ g.blocks) (cover l') := by
        rw [hcover]
        exact disjoint_union_right.2 ⟨hdisj_out, sdiff_disjoint⟩
      have ih := freeGroups_iff (ε := ε) (a := { a with free := l', dirty := true }) hsep hout' hdisj' hret.2
      have hfa : FreeableAll (cover a.free) (g :: gs) ↔ FreeableAll (cover l') gs := by
        rw [hcover]
        exact and_iff_right hfree
      rw [hfa, ← ih, freeGroups, bind_apply, ha', andThen_ok, hcover, cover_cons, union_assoc]
    · refine iff_of_false ?_ fun h => hfree h.1
      rintro ⟨a', ha', -, hcover⟩
      have hlost := freeGroup_not_freeable (ε := ε) hv hc hdisj_g hfree
      obtain ⟨_, a1, hg, hgs⟩ := bind_ok_iff.1 ha'
      obtain rfl := (wlp_of_ok hg).1 hlost
      have hgrow := freeGroups_wlp (ε := ε) (a := { a with dirty := true }) hc hout' hdisj_out hret.2
      have hsub := ((wlp_of_ok hgs).1 hgrow).2
      -- the first block of `g` is in neither set
      have hstart : g.start.get ∈ cover a'.free := by
        rw [hcover, cover_cons]
        exact mem_union_right _ (mem_union_left _ g.start_mem_blocks)
      rcases mem_union.1 (hsub hstart) with h | h
      · exact disjoint_left.1 hdisj_g g.start_mem_blocks h
      · exact (mem_sdiff.1 (hret.2.cover_subset h)).2 g.start_mem_blocks

/-! ## One call -/

variable {F0 : Finset ℕ} {s : Ledger}
section
variable (h : Conserved F0 s) {size : ℕ}
include h

theorem Conserved.separated : Separated s.allocator.free := checkConsistent_eq_true.1 h.consistent

theorem Conserved.addressable (hF : Addresses F0) :
    Addressable s.allocator.free := fun g hg => by
  have hsub : s.allocator.freeBlockSet ⊆ F0 := h.free_eq ▸ sdiff_subset
  exact hF.valid fun b hb => hsub (IntervalList.mem_cover.2 ⟨g, hg, BlockGroup.mem_blocks.1 hb⟩)

theorem Conserved.disjoint : Disjoint s.out (cover s.allocator.free) := by
  have hfree : cover s.allocator.free = F0 \ s.out := h.free_eq
  rw [hfree]
  exact disjoint_sdiff

/-- Taking blocks out of the free set and booking them out conserves. -/
theorem Conserved.taken {r : BlockGroup} {l' : List BlockGroup} (ht : Taken size s.allocator.free r l') :
    Conserved F0 ⟨{ s.allocator with free := l', dirty := true }, s.out ∪ r.blocks⟩ where
  out_subset := by
    have hsub : s.allocator.freeBlockSet ⊆ F0 := h.free_eq ▸ sdiff_subset
    exact union_subset h.out_subset (ht.subset.trans hsub)
  free_eq := by
    have hfree : cover s.allocator.free = F0 \ s.out := h.free_eq
    change cover l' = _
    rw [ht.cover_eq, hfree, sdiff_sdiff_left]
    rfl
  consistent := checkConsistent_eq_true.2 ht.separated

section
variable (hF : Addresses F0)
include hF

/-- `allocate_group` in a conserving state. -/
theorem Conserved.allocateGroup_cases (hsize : 1 ≤ size) :
    (∃ r l', allocateGroup size s.allocator = .ok r { s.allocator with free := l', dirty := true } ∧
      Taken size s.allocator.free r l') ∨
    ∃ e, allocateGroup size s.allocator = .err e s.allocator := by
  have hspec := allocateGroup_wp hsize h.separated (h.addressable hF)
  unfold Prog.wp at hspec
  cases hg : allocateGroup size s.allocator with
  | fault f => simp [hg] at hspec
  | err e a' =>
    obtain ⟨-, rfl, -⟩ : _ ∧ a' = s.allocator ∧ _ := by simpa only [hg, Outcome.ends_err] using hspec
    exact .inr ⟨e, rfl⟩
  | ok r a' =>
    obtain ⟨l', rfl, ht⟩ : ∃ l', a' = _ ∧ _ := by simpa only [hg, Outcome.ends_ok] using hspec
    exact .inl ⟨r, l', rfl, ht⟩

theorem Conserved.allocateGroup (hsize : 1 ≤ size) : ∃ s' ∈ (AllocCall.allocateGroup size).step s, Conserved F0 s' := by
  rcases h.allocateGroup_cases hF hsize with ⟨r, l', hg, ht⟩ | ⟨e, hg⟩
  · exact ⟨_, by rw [AllocCall.step, hg]; rfl, h.taken ht⟩
  · exact ⟨s, by rw [AllocCall.step, hg]; rfl, h⟩

theorem Conserved.allocateBlock : ∃ s' ∈ AllocCall.allocateBlock.step s, Conserved F0 s' := by
  rcases h.allocateGroup_cases hF (le_refl 1) with ⟨r, l', hg, ht⟩ | ⟨e, hg⟩
  · have hblocks : r.blocks = {r.start.get} := by
      rw [BlockGroup.blocks, BlockGroup.past, ht.count, Nat.Ico_succ_singleton]
    refine ⟨_, ?_, h.taken ht⟩
    rw [AllocCall.step, BlockAllocator.allocateBlock, bind_apply, hg, hblocks]
    rfl
  · refine ⟨s, ?_, h⟩
    rw [AllocCall.step, BlockAllocator.allocateBlock, bind_apply, hg]
    rfl

theorem Conserved.allocate {count : ℕ}
    (hcount : 1 ≤ count) : ∃ s' ∈ (AllocCall.allocate count).step s, Conserved F0 s' := by
  rw [AllocCall.step, allocate_apply hcount]
  split_ifs
  · rcases h.allocateGroup_cases hF hcount with ⟨r, l', hg, ht⟩ | ⟨e, hg⟩
    · have hcover : cover [r] = r.blocks := union_empty _
      refine ⟨_, ?_, h.taken ht⟩
      rw [hg, ← hcover]
      rfl
    · exact ⟨s, by rw [hg]; rfl, h⟩
  · exact ⟨s, rfl, h⟩

/-- **Giving groups back conserves exactly if each is freeable in its turn.** -/
theorem Conserved.freeGroups_iff {gs : List BlockGroup} (hret : Returned s.out gs) :
    (∃ s' ∈ s.book (fun _ => s.out \ cover gs) (freeGroups gs s.allocator), Conserved F0 s') ↔
      FreeableAll s.allocator.freeBlockSet gs := by
  have hout : Addresses s.out := fun b hb => hF b (h.out_subset hb)
  have hfree : cover s.allocator.free = F0 \ s.out := h.free_eq
  have hback : F0 \ (s.out \ cover gs) = cover s.allocator.free ∪ cover gs := by
    have hgs := hret.cover_subset
    have hin := h.out_subset
    rw [hfree]
    ext b
    have hb := @hgs b
    have hb' := @hin b
    simp only [mem_sdiff, mem_union]
    tauto
  rw [freeBlockSet, ← BlockAllocator.freeGroups_iff (ε := FsError) h.separated hout h.disjoint hret]
  constructor
  · rintro ⟨s', hs', hc⟩
    cases hg : (freeGroups gs : Prog BlockAllocator FsError Unit) s.allocator with
    | fault f => rw [hg] at hs'; cases hs'
    | err e a' =>
      have hno := freeGroups_wlp (ε := FsError) h.separated hout h.disjoint hret
      unfold Prog.wlp at hno
      rw [hg] at hno
      exact hno.elim
    | ok u a' =>
      rw [hg] at hs'
      cases hs'
      exact ⟨a', rfl, hc.separated, hc.free_eq.trans hback⟩
  · rintro ⟨a', ha', hsep, hcover⟩
    refine ⟨⟨a', s.out \ cover gs⟩, by rw [ha']; rfl, ?_⟩
    exact ⟨sdiff_subset.trans h.out_subset, hcover.trans hback.symm, checkConsistent_eq_true.2 hsep⟩
end
end

/-- **One call**: of the legal calls, exactly those that give back freeable groups conserve. -/
theorem Conserved.step_iff (hF : Addresses F0) (c : AllocCall) (h : Conserved F0 s)
    (hl : c.Legal s) : (∃ s' ∈ c.step s, Conserved F0 s') ↔ c.GivesBack s := by
  obtain ⟨hret, hcount, hsize⟩ := hl
  cases c with
  | allocate n =>
    have hn : 1 ≤ n := Nat.one_le_iff_ne_zero.2 fun e => hcount (by rw [e])
    exact iff_of_true (h.allocate hF hn) trivial
  | allocateGroup n =>
    have hn : 1 ≤ n := Nat.one_le_iff_ne_zero.2 fun e => hsize (by rw [e])
    exact iff_of_true (h.allocateGroup hF hn) trivial
  | allocateBlock => exact iff_of_true (h.allocateBlock hF) trivial
  | free list => exact h.freeGroups_iff hF hret
  | freeGroup g =>
    have hcover : cover [g] = g.blocks := union_empty _
    rw [AllocCall.GivesBack, ← h.freeGroups_iff hF hret, AllocCall.step, AllocCall.freed, hcover, freeGroups_single]
  | freeBlock b =>
    have hcover : cover [.single b] = {b.get} := by
      rw [cover_cons, BlockGroup.single_blocks]
      exact union_empty _
    rw [AllocCall.GivesBack, ← h.freeGroups_iff hF hret, AllocCall.step, AllocCall.freed, hcover,
      freeGroups_single, BlockAllocator.freeBlock]

/-! ## Runs -/

theorem Initial.conserved {a : BlockAllocator} (h : Initial a) :
    Addresses a.freeBlockSet ∧ Conserved a.freeBlockSet ⟨a, ∅⟩ := by
  have hsep : Separated a.free ∧ Addresses a.freeBlockSet := by
    cases h with
    | empty h =>
      obtain ⟨hsep, hset, -⟩ := empty_spec h
      refine ⟨hsep, fun b hb => ?_⟩
      rw [hset] at hb
      have hlt := mem_range.1 (mem_sdiff.1 hb).1
      exact lt_trans hlt (LBA.get_lt _)
    | load h hv =>
      refine ⟨load_separated h, fun b hb => ?_⟩
      obtain ⟨g, hg, -, hlt⟩ := IntervalList.mem_cover.1 hb
      have hvalid : g.past < u64Size := hv g hg
      omega
  exact ⟨hsep.2, empty_subset _, sdiff_empty.symm, checkConsistent_eq_true.2 hsep.1⟩

/-- **Conservation of blocks.**  A legal run of the allocator is conserving — at every point the free
set is the initial one without the blocks handed out, and the free list is consistent — exactly if
each group is given back in a state in which it is freeable. -/
theorem conserved_run_iff {a : BlockAllocator} (ha : Initial a) {calls : List AllocCall}
    (hl : Along AllocCall.step AllocCall.Legal calls ⟨a, ∅⟩) :
    Safe AllocCall.step (Conserved a.freeBlockSet) calls ⟨a, ∅⟩ ↔
      Along AllocCall.step AllocCall.GivesBack calls ⟨a, ∅⟩ := by
  obtain ⟨hF, hc⟩ := ha.conserved
  exact safe_iff_along (fun c s h hl => h.step_iff hF c hl) hc hl

/-- A group with a free block after it, and none right behind it, comes back. -/
theorem conserved_run_reuse : ∃ a, BlockAllocator.empty [] ⟨8, by decide⟩ = .ok a ∧
    Safe AllocCall.step (Conserved a.freeBlockSet)
      [.allocateGroup 2, .allocateGroup 1, .freeGroup ⟨LBA.ZERO, 2, by decide, by decide⟩]
      ⟨a, ∅⟩ := by
  refine ⟨_, rfl, (conserved_run_iff ?_ (by decide +kernel)).2 (by decide +kernel)⟩
  exact @Initial.empty [] ⟨8, by decide⟩ _ rfl

/-- **The last free block, given back, is lost**: the loop over an empty free list does nothing. -/
theorem not_conserved_last_block : ∃ a, BlockAllocator.empty [LBA.ZERO] ⟨2, by decide⟩ = .ok a ∧
    Along AllocCall.step AllocCall.Legal [.allocateBlock, .freeBlock ⟨1, by decide⟩] ⟨a, ∅⟩ ∧
    ¬ Safe AllocCall.step (Conserved a.freeBlockSet) [.allocateBlock, .freeBlock ⟨1, by decide⟩] ⟨a, ∅⟩ := by
  refine ⟨_, rfl, by decide +kernel, ?_⟩
  rintro ⟨-, s₁, h₁, -, s₂, h₂, hc⟩
  cases h₁
  cases h₂
  have hfree := hc.free_eq
  revert hfree
  decide +kernel
end BlockAllocator
end WasabiOS
