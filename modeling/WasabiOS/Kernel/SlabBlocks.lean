import WasabiOS.Kernel.Slab
import Mathlib.Data.Finset.Card
import Mathlib.Data.List.Pairwise

/-!
# Kernel/SlabBlocks — the blocks of a slab allocator

Allocations are cut from the front of a block one after another and their memory is not reused before
the whole block is given back.  A block is **carved** (`Carved`) if its counters say how many of its
allocations are live.  From this follow the two facts that the code rests on without saying so: a block
is given back only when none of its allocations is live, and the window a block claims in `contains`,
which reaches beyond its end, does not meet the window of another block.
-/

open Machinery Prog
open Function (update update_self update_of_ne update_idem)
namespace WasabiOS
open SlabAllocator SlabHeap List
variable {live : List Cut} {blocks : List ℕ} {b size : ℕ} {v : SlabBlock} {e : Cut}

/-- A live allocation, and the block it was cut from. -/
structure Cut where
  ptr : ℕ
  layout : Layout
  block : ℕ

/-- Two blocks do not overlap. -/
def BlocksApart (b b' : ℕ) : Prop := b + SLAB_BLOCK_SIZE ≤ b' ∨ b' + SLAB_BLOCK_SIZE ≤ b

instance : Std.Symm BlocksApart := ⟨fun _ _ => Or.symm⟩

/-- The counters of the block at `b` agree with the live allocations. -/
structure Carved (size : ℕ) (live : List Cut) (b : ℕ) (v : SlabBlock) : Prop where
  start_eq : v.start = U64.alignUp size (b + SlabBlock.SIZE)
  end_eq : v.end_ = b + (SLAB_BLOCK_SIZE - 1)
  slots : ∃ k, v.used = size * k ∧ ∀ e ∈ live, e.block = b → ∃ j < k, e.ptr = v.start + size * j
  room : v.used = 0 ∨ v.start + v.used < v.end_
  balance : size * live.countP (fun e => e.block = b) + v.freed = v.used

variable {H : Type} {lo hi : ℕ}

/-- **The invariant of a slab allocator** with blocks `blocks`. -/
structure SlabInv (A : Allocator H lo hi) (s : SlabHeap H) (live : List Cut) (blocks : List ℕ) : Prop where
  size_dvd : s.slab.size ∣ SLAB_BLOCK_SIZE
  linked : ∃ last, SlabBlock.links.Segment s.slab.memory none s.slab.block blocks last none
  apart : blocks.Pairwise BlocksApart
  inside : ∀ b ∈ blocks, lo ≤ b ∧ b + SLAB_BLOCK_SIZE ≤ hi
  held : ∀ b ∈ blocks, A.live s.allocator b = some SlabBlock.layout
  carved : ∀ b ∈ blocks, ∃ v, s.slab.memory b = some v ∧ Carved s.slab.size live b v
  cut : ∀ e ∈ live, e.block ∈ blocks ∧ e.layout.size ≤ s.slab.size ∧ e.layout.align ≤ s.slab.size
  distinct : live.Pairwise fun e e' => e.ptr ≠ e'.ptr

/-- Everything but the links. -/
def SlabBlock.counters (v : SlabBlock) : ℕ × ℕ × ℕ × ℕ := (v.start, v.end_, v.used, v.freed)

variable {s : SlabHeap H} {b' : ℕ} {v' : SlabBlock} {e' : Cut} {A : Allocator H lo hi}

theorem SLAB_BLOCK_SIZE_pos : 0 < SLAB_BLOCK_SIZE := by decide

theorem SlabInv.size_pos (h : SlabInv A s live blocks) : 0 < s.slab.size :=
  Nat.pos_of_dvd_of_pos h.size_dvd SLAB_BLOCK_SIZE_pos

theorem SlabInv.nodup (h : SlabInv A s live blocks) : blocks.Nodup := by
  refine h.apart.imp fun {b b'} hapart heq => ?_
  subst heq
  have hpos := SLAB_BLOCK_SIZE_pos
  rcases hapart with hle | hle <;> omega

/-- An allocation is known by its pointer. -/
theorem SlabInv.eq_of_ptr (h : SlabInv A s live blocks) (he : e ∈ live) (he' : e' ∈ live)
    (hptr : e.ptr = e'.ptr) : e = e' := by
  have hsymm : Std.Symm fun e e' : Cut => e.ptr ≠ e'.ptr := ⟨fun _ _ => Ne.symm⟩
  by_contra hne
  exact h.distinct.forall he he' hne hptr

/-- **Windows do not meet**: alignment moves along with a block, so the windows of two blocks are as far
apart as the blocks. -/
theorem start_add_le (hsize : size ∣ SLAB_BLOCK_SIZE) (hle : b + SLAB_BLOCK_SIZE ≤ b')
    (hv : v.start = U64.alignUp size (b + SlabBlock.SIZE))
    (hv' : v'.start = U64.alignUp size (b' + SlabBlock.SIZE)) :
    v.start + SLAB_BLOCK_SIZE ≤ v'.start := by
  have hpos : 0 < size := Nat.pos_of_dvd_of_pos hsize SLAB_BLOCK_SIZE_pos
  rw [hv, hv', ← U64.alignUp_add hsize]
  refine U64.alignUp_le hpos (le_trans ?_ U64.le_alignUp) (U64.dvd_alignUp hpos)
  omega

section Carved
variable (h : Carved size live b v) (hsize : 0 < size) (he : e ∈ live) (hb : e.block = b)
include h hsize he hb

/-- A live allocation lies in the used part of its block. -/
theorem Carved.bounds : v.start ≤ e.ptr ∧ e.ptr + size ≤ v.start + v.used ∧ v.start + v.used < v.end_ := by
  obtain ⟨k, hk, hslots⟩ := h.slots
  obtain ⟨j, hj, hptr⟩ := hslots e he hb
  have hle : size * (j + 1) ≤ size * k := Nat.mul_le_mul_left size hj
  rw [Nat.mul_succ] at hle
  exact ⟨by omega, by omega, h.room.resolve_left (by omega)⟩

/-- …hence behind its header and before its end. -/
theorem Carved.inside : b + SlabBlock.SIZE ≤ e.ptr ∧ e.ptr + size ≤ b + SLAB_BLOCK_SIZE := by
  obtain ⟨hstart, hused, hend⟩ := h.bounds hsize he hb
  have hle : b + SlabBlock.SIZE ≤ v.start := h.start_eq ▸ U64.le_alignUp
  have hend_eq := h.end_eq
  exact ⟨hle.trans hstart, by omega⟩

theorem Carved.dvd : size ∣ e.ptr := by
  obtain ⟨k, -, hslots⟩ := h.slots
  obtain ⟨j, -, hptr⟩ := hslots e he hb
  rw [hptr, h.start_eq]
  exact Nat.dvd_add (U64.dvd_alignUp hsize) (dvd_mul_right size j)

theorem Carved.contains : v.contains e.ptr = true := by
  obtain ⟨hstart, hused, hend⟩ := h.bounds hsize he hb
  have hle : b + SlabBlock.SIZE ≤ v.start := h.start_eq ▸ U64.le_alignUp
  have hend_eq := h.end_eq
  rw [SlabBlock.contains, Bool.and_eq_true, decide_eq_true_eq, decide_eq_true_eq]
  exact ⟨hstart, by omega⟩
end Carved

section
variable (h : SlabInv A s live blocks)
include h

/-- An allocation is in the window of its own block only. -/
theorem SlabInv.eq_of_contains (he : e ∈ live) (hb : b ∈ blocks)
    (hv : s.slab.memory b = some v) (hcontains : v.contains e.ptr = true) : b = e.block := by
  by_contra hne
  obtain ⟨hblock, -, -⟩ := h.cut e he
  obtain ⟨w, hw, hcarved⟩ := h.carved e.block hblock
  obtain ⟨v', hv', hcarved'⟩ := h.carved b hb
  cases hv.symm.trans hv'
  have hown := hcarved.contains h.size_pos he rfl
  rw [SlabBlock.contains, Bool.and_eq_true, decide_eq_true_eq, decide_eq_true_eq] at hcontains hown
  have hapart : BlocksApart b e.block := h.apart.forall hb hblock hne
  rcases hapart with hle | hle
  · have := start_add_le h.size_dvd hle hcarved'.start_eq hcarved.start_eq
    omega
  · have := start_add_le h.size_dvd hle hcarved.start_eq hcarved'.start_eq
    omega

theorem SlabInv.exists_first (hb : b ∈ blocks) : ∃ first, s.slab.block = some first := by
  obtain ⟨last, hlinked⟩ := h.linked
  cases blocks with
  | nil => exact absurd hb not_mem_nil
  | cons b' blocks => exact ⟨b', hlinked.1⟩

/-- There are fewer blocks than addresses. -/
theorem SlabInv.length_lt (hhi : hi ≤ 2 ^ 64) : blocks.length < 2 ^ 64 := by
  have hsubset : blocks.toFinset ⊆ Finset.range (2 ^ 64 - 1) := by
    intro b hb
    obtain ⟨-, hinside⟩ := h.inside b (mem_toFinset.1 hb)
    have hpos : 1 < SLAB_BLOCK_SIZE := by decide
    exact Finset.mem_range.2 (by omega)
  have hcard := Finset.card_le_card hsubset
  rw [List.toFinset_card_of_nodup h.nodup, Finset.card_range] at hcard
  omega

/-- A search along the list. -/
theorem SlabInv.findBlock {ε : Type} (hhi : hi ≤ 2 ^ 64) (hfirst : s.slab.block = some b) (p : SlabBlock → Bool) :
    (findBlock p b : Prog (SlabHeap H) ε (Option ℕ)) s = .ok (blocks.find? fun b => (s.slab.memory b).any p) s := by
  obtain ⟨last, hlinked⟩ := h.linked
  rw [hfirst] at hlinked
  simp only [SlabAllocator.findBlock, bind_apply, get_apply, andThen_ok,
    hlinked.walk p (h.length_lt hhi), lift_ok, pure_apply]

/-- **The block of an allocation is found.** -/
theorem SlabInv.findBlockContaining {ε : Type} (hhi : hi ≤ 2 ^ 64) (hfirst : s.slab.block = some b) (he : e ∈ live) :
    (findBlockContaining e.ptr b : Prog (SlabHeap H) ε (Option ℕ)) s = .ok (some e.block) s := by
  obtain ⟨hblock, -, -⟩ := h.cut e he
  obtain ⟨w, hw, hcarved⟩ := h.carved e.block hblock
  have hsome : (blocks.find? fun b => (s.slab.memory b).any (SlabBlock.contains e.ptr)).isSome := by
    rw [find?_isSome]
    refine ⟨e.block, hblock, ?_⟩
    rw [hw]
    exact hcarved.contains h.size_pos he rfl
  obtain ⟨b', hb'⟩ := Option.isSome_iff_exists.1 hsome
  have hmem := mem_of_find?_eq_some hb'
  have hany := find?_some hb'
  obtain ⟨v, hv, -⟩ := h.carved b' hmem
  rw [hv] at hany
  rw [SlabAllocator.findBlockContaining, h.findBlock hhi hfirst, hb', h.eq_of_contains he hmem hv hany]
end

theorem Carved.congr (h : Carved size live b v) (hv : v'.counters = v.counters) : Carved size live b v' := by
  simp only [SlabBlock.counters, Prod.mk.injEq] at hv
  obtain ⟨hstart, hend, hused, hfreed⟩ := hv
  refine ⟨hstart.trans h.start_eq, hend.trans h.end_eq, ?_, ?_, ?_⟩
  · rw [hused, hstart]
    exact h.slots
  · rw [hused, hstart, hend]
    exact h.room
  · rw [hused, hfreed]
    exact h.balance

/-- What happens in another block does not matter. -/
theorem Carved.of_iff (h : Carved size live b v) {live' : List Cut} (hmem : ∀ e, e.block = b → (e ∈ live' ↔ e ∈ live))
    (hcount : live'.countP (fun e => e.block = b) = live.countP fun e => e.block = b) :
    Carved size live' b v := by
  refine { h with slots := ?_, balance := hcount ▸ h.balance }
  obtain ⟨k, hk, hslots⟩ := h.slots
  exact ⟨k, hk, fun e he hb => hslots e ((hmem e hb).1 he) hb⟩

/-- Headers that keep their links keep the list. -/
theorem SlabInv.linked_store (h : SlabInv A s live blocks) (hv : s.slab.memory b = some v)
    (hnext : v'.next = v.next) (hprev : v'.prev = v.prev) :
    ∃ last, SlabBlock.links.Segment (s.store b v').slab.memory none s.slab.block blocks last none := by
  obtain ⟨last, hlinked⟩ := h.linked
  refine ⟨last, hlinked.congr fun a _ w hw => ?_⟩
  by_cases ha : a = b
  · subst ha
    cases hv.symm.trans hw
    exact ⟨v', update_self .., hnext, hprev⟩
  · exact ⟨w, (update_of_ne ha ..).trans hw, rfl, rfl⟩

/-! ## Programs on headers -/

variable {f : SlabBlock → SlabBlock} {ε : Type}

/-- The memory of headers, as a whole. -/
def SlabHeap.setMemory (m : ℕ → Option SlabBlock) (s : SlabHeap H) : SlabHeap H :=
  { s with slab := { s.slab with memory := m } }

theorem SlabHeap.deref_eq (hv : s.slab.memory b = some v) : (deref b : Prog (SlabHeap H) ε SlabBlock) s = .ok v s := by
  simp only [deref, bind_apply, get_apply, andThen_ok, hv, pure_apply]

theorem SlabHeap.update_eq (hv : s.slab.memory b = some v) :
    (SlabHeap.update b f : Prog (SlabHeap H) ε Unit) s = .ok () (s.store b (f v)) := by
  simp only [SlabHeap.update, bind_apply, deref_eq hv, andThen_ok, modify_apply]

theorem SlabHeap.store_store {w : SlabBlock} : (s.store b v).store b w = s.store b w := by
  rw [SlabHeap.store, SlabHeap.store, SlabHeap.store, update_idem]

theorem SlabHeap.updateLink_eq {p : Option ℕ} (hp : ∀ b, p = some b → ∃ v, s.slab.memory b = some v) :
    (updateLink p f : Prog (SlabHeap H) ε Unit) s = .ok () (s.setMemory (Links.adjust f s.slab.memory p)) := by
  cases p with
  | none => rfl
  | some b =>
    obtain ⟨v, hv⟩ := hp b rfl
    rw [updateLink, update_eq hv, Links.adjust, hv]
    rfl

/-! ## A new block -/

variable {k : H}

/-- The state after a block has been pushed. -/
def SlabHeap.pushed (b : ℕ) (k : H) (s : SlabHeap H) : SlabHeap H :=
  ((s.setMemory (SlabBlock.links.push b (SlabBlock.fresh s.slab.size b) s.slab.block s.slab.memory)).setBlock
    (some b)).setAllocator k

theorem SlabAllocator.newBlock_none (halloc : A.alloc SlabBlock.layout s.allocator = none) :
    newBlock A s = .err .outOfMemory s := by
  simp only [newBlock, bind_apply, get_apply, andThen_ok, halloc, throw_apply]

theorem SlabAllocator.newBlock_some (halloc : A.alloc SlabBlock.layout s.allocator = some (b, k)) : newBlock A s =
      .ok b ((s.setAllocator k).store b (SlabBlock.fresh s.slab.size b)) := by
  simp only [newBlock, bind_apply, get_apply, andThen_ok, halloc, modify_apply, pure_apply]

theorem SlabAllocator.pushNewBlock_none (halloc : A.alloc SlabBlock.layout s.allocator = none) :
    pushNewBlock A s = .err .outOfMemory s := by
  simp only [pushNewBlock, bind_apply, newBlock_none halloc, Outcome.andThen_err]

section
variable (h : SlabInv A s live blocks)
include h

theorem SlabInv.first_mem (hfirst : s.slab.block = some b) : b ∈ blocks := by
  obtain ⟨last, hlinked⟩ := h.linked
  cases blocks with
  | nil => exact absurd (hfirst.symm.trans hlinked.2) (by simp)
  | cons c blocks => exact Option.some.inj (hfirst.symm.trans hlinked.1) ▸ mem_cons_self

section
variable (halloc : A.alloc SlabBlock.layout s.allocator = some (b, k))
include halloc

theorem SlabInv.not_mem : b ∉ blocks := by
  intro hb
  exact absurd ((A.alloc_fresh halloc).symm.trans (h.held b hb)) (by simp)

theorem SlabInv.pushNewBlock_some : pushNewBlock A s = .ok b (s.pushed b k) := by
  have hself : ((s.setAllocator k).store b (SlabBlock.fresh s.slab.size b)).slab.memory b =
    some (SlabBlock.fresh s.slab.size b) := update_self ..
  have hlinks : ∀ first, s.slab.block = some first → ∃ w, ((s.setAllocator k).store b
      ((SlabBlock.fresh s.slab.size b).setNext s.slab.block)).slab.memory first = some w := by
    intro first hfirst
    have hmem := h.first_mem hfirst
    obtain ⟨w, hw, -⟩ := h.carved first hmem
    refine ⟨w, (update_of_ne ?_ ..).trans hw⟩
    exact fun heq => h.not_mem halloc (heq ▸ hmem)
  have hupdate := updateLink_eq (ε := HeapError) (f := SlabBlock.setPrev (some b)) hlinks
  simp only [pushNewBlock, bind_apply, newBlock_some halloc, andThen_ok, get_apply, update_eq hself, store_store]
  exact (congrArg (Outcome.andThen · _) hupdate).trans rfl

/-- The header of a block that has just been pushed. -/
theorem SlabInv.pushed_memory :
    (s.pushed b k).slab.memory b = some ((SlabBlock.fresh s.slab.size b).setNext s.slab.block) := by
  refine (Links.adjust_of_ne fun hfirst => h.not_mem halloc (h.first_mem hfirst)).trans ?_
  exact update_self ..

/-- **A new block** is carved, and apart from the others. -/
theorem SlabInv.push : SlabInv A (s.pushed b k) live (b :: blocks) := by
  have hb := h.not_mem halloc
  obtain ⟨last, hlinked⟩ := h.linked
  -- the header of an old block may have got a predecessor
  have hold : ∀ b' ∈ blocks, ∀ v, s.slab.memory b' = some v →
      ∃ v', (s.pushed b k).slab.memory b' = some v' ∧ v'.counters = v.counters := by
    intro b' hb' v hv
    have hkeep : update s.slab.memory b (some ((SlabBlock.fresh s.slab.size b).setNext s.slab.block)) b' = some v :=
      (update_of_ne (ne_of_mem_of_not_mem hb' hb) ..).trans hv
    rcases Links.adjust_some hkeep with hadjust | hadjust
    · exact ⟨v, hadjust, rfl⟩
    · exact ⟨_, hadjust, rfl⟩
  refine ⟨h.size_dvd, hlinked.push h.nodup hb rfl, ?_, ?_, ?_, ?_, ?_, h.distinct⟩
  · refine pairwise_cons.2 ⟨fun b' hb' => ?_, h.apart⟩
    exact A.alloc_apart halloc (h.held b' hb')
  · intro b' hb'
    rcases mem_cons.1 hb' with rfl | hb'
    · exact A.alloc_inside halloc
    · exact h.inside b' hb'
  · intro b' hb'
    show A.live k b' = _
    rw [A.alloc_live halloc]
    rcases mem_cons.1 hb' with rfl | hb'
    · exact update_self ..
    · rw [update_of_ne (ne_of_mem_of_not_mem hb' hb)]
      exact h.held b' hb'
  · intro b' hb'
    rcases mem_cons.1 hb' with rfl | hb'
    · have hnone : live.countP (fun e => e.block = b') = 0 :=
        countP_eq_zero.2 fun e he heq => hb (of_decide_eq_true heq ▸ (h.cut e he).1)
      refine ⟨_, h.pushed_memory halloc, rfl, rfl, ⟨0, rfl, fun e he heq => ?_⟩, .inl rfl, ?_⟩
      · exact absurd (heq ▸ (h.cut e he).1) hb
      · rw [hnone]
        rfl
    · obtain ⟨v, hv, hcarved⟩ := h.carved b' hb'
      obtain ⟨v', hv', hcounters⟩ := hold b' hb' v hv
      exact ⟨v', hv', hcarved.congr hcounters⟩
  · intro e he
    obtain ⟨hblock, hlayout⟩ := h.cut e he
    exact ⟨mem_cons_of_mem b hblock, hlayout⟩
end
end

/-! ## The start -/

theorem SlabInv.empty (hsize : size ∣ SLAB_BLOCK_SIZE) (h : H) :
    SlabInv A ⟨⟨size, none, fun _ => none⟩, h⟩ [] [] :=
  ⟨hsize, ⟨none, rfl, rfl⟩, List.Pairwise.nil, forall_mem_nil _, forall_mem_nil _, forall_mem_nil _,
    forall_mem_nil _, List.Pairwise.nil⟩

/-- The invariant reads the backing allocator at the blocks only. -/
theorem SlabInv.frame (h : SlabInv A s live blocks)
    (hk : ∀ b ∈ blocks, A.live k b = A.live s.allocator b) : SlabInv A ⟨s.slab, k⟩ live blocks :=
  { h with held := fun b hb => (hk b hb).trans (h.held b hb) }

/-! ## Cutting -/

theorem SlabAllocator.allocIn_full (hv : s.slab.memory b = some v) (hfull : v.isFull size = true) :
    allocIn b size s = .err .outOfMemory s := by
  simp only [allocIn, bind_apply, deref_eq hv, andThen_ok, hfull, if_true, throw_apply]

theorem SlabInv.allocIn_eq (h : SlabInv A s live blocks) (hb : b ∈ blocks)
    (hv : s.slab.memory b = some v) (hroom : v.isFull s.slab.size = false) :
    allocIn b s.slab.size s = .ok (v.start + v.used) (s.store b (v.addUsed s.slab.size)) := by
  obtain ⟨w, hw, hcarved⟩ := h.carved b hb
  cases hv.symm.trans hw
  have hne : s.slab.size ≠ 0 := h.size_pos.ne'
  have hlt : v.start + v.used + s.slab.size < v.end_ := Nat.lt_of_not_le (of_decide_eq_false hroom)
  have hdvd : s.slab.size ∣ v.start + v.used := by
    obtain ⟨k, hk, -⟩ := hcarved.slots
    rw [hcarved.start_eq, hk]
    exact Nat.dvd_add (U64.dvd_alignUp h.size_pos) (dvd_mul_right _ k)
  simp only [allocIn, bind_apply, deref_eq hv, andThen_ok, hroom,
    Bool.false_eq_true, if_false, hne, decide_eq_true hlt.le, assert_true, pure_apply,
    modify_apply, U64.alignUp_of_dvd hdvd, decide_true]

/-- **A new allocation** is cut behind the others of its block. -/
theorem SlabInv.cutNew (h : SlabInv A s live blocks) (hb : b ∈ blocks) (hv : s.slab.memory b = some v)
    (hroom : v.isFull s.slab.size = false) {layout : Layout} (hsize : layout.size ≤ s.slab.size)
    (halign : layout.align ≤ s.slab.size) :
    SlabInv A (s.store b (v.addUsed s.slab.size)) (⟨v.start + v.used, layout, b⟩ :: live) blocks := by
  obtain ⟨w, hw, hcarved⟩ := h.carved b hb
  cases hv.symm.trans hw
  have hlt : v.start + v.used + s.slab.size < v.end_ := Nat.lt_of_not_le (of_decide_eq_false hroom)
  obtain ⟨k, hk, hslots⟩ := hcarved.slots
  refine { h with linked := h.linked_store hv rfl rfl, carved := fun b' hb' => ?_, cut := ?_, distinct := ?_ }
  · by_cases heq : b' = b
    · subst heq
      refine ⟨v.addUsed s.slab.size, update_self .., hcarved.start_eq, hcarved.end_eq,
        ⟨k + 1, ?_, fun e he heb => ?_⟩, .inr ?_, ?_⟩
      · show v.used + s.slab.size = _
        rw [hk]
        rfl
      · rcases mem_cons.1 he with rfl | he
        · exact ⟨k, lt_add_one k, congrArg (v.start + ·) hk⟩
        · obtain ⟨j, hj, hptr⟩ := hslots e he heb
          exact ⟨j, Nat.lt_succ_of_lt hj, hptr⟩
      · show v.start + (v.used + s.slab.size) < v.end_
        rw [← add_assoc]
        exact hlt
      · have hbalance := hcarved.balance
        have hcount : (⟨v.start + v.used, layout, b'⟩ :: live).countP (fun e => e.block = b') =
            live.countP (fun e => e.block = b') + 1 := countP_cons_of_pos (decide_eq_true rfl)
        rw [hcount, Nat.mul_succ]
        show s.slab.size * _ + s.slab.size + v.freed = v.used + s.slab.size
        omega
    · obtain ⟨w, hw, hcarved'⟩ := h.carved b' hb'
      refine ⟨w, (update_of_ne heq ..).trans hw, hcarved'.of_iff (fun e he => ?_) ?_⟩
      · rw [List.mem_cons, or_iff_right]
        rintro rfl
        exact heq he.symm
      · exact countP_cons_of_neg fun hd => heq (of_decide_eq_true hd).symm
  · intro e he
    rcases mem_cons.1 he with rfl | he
    · exact ⟨hb, hsize, halign⟩
    · exact h.cut e he
  · refine pairwise_cons.2 ⟨fun e he heq => ?_, h.distinct⟩
    -- an old allocation at the new place would be one of this block, and those lie before it
    have hblock : b = e.block := by
      refine h.eq_of_contains he hb hv ?_
      have hend := hcarved.end_eq
      have hle : b + SlabBlock.SIZE ≤ v.start := hcarved.start_eq ▸ U64.le_alignUp
      rw [SlabBlock.contains, Bool.and_eq_true, decide_eq_true_eq, decide_eq_true_eq]
      have hptr : v.start + v.used = e.ptr := heq
      omega
    have hbounds := hcarved.bounds h.size_pos he hblock.symm
    have hpos := h.size_pos
    have hptr : v.start + v.used = e.ptr := heq
    omega

/-! ## What the other users of the backing allocator see -/

/-- From `h` to `h'` only the blocks of one slab allocator changed hands: they were `blocks` and are now
`blocks'`. -/
structure Drawn (A : Allocator H lo hi) (h : H) (blocks : List ℕ) (h' : H) (blocks' : List ℕ) : Prop where
  keep : ∀ q, q ∉ blocks → A.live h q ≠ none → A.live h' q = A.live h q
  fresh : ∀ b ∈ blocks', b ∈ blocks ∨ A.live h b = none

section Drawn
variable {h h' h'' : H} {blocks' blocks'' : List ℕ}

theorem Drawn.refl : Drawn A h blocks h blocks := ⟨fun _ _ _ => rfl, fun _ => .inl⟩

theorem Drawn.trans (h1 : Drawn A h blocks h' blocks') (h2 : Drawn A h' blocks' h'' blocks'') :
    Drawn A h blocks h'' blocks'' := by
  constructor
  · intro q hq hlive
    have hkeep := h1.keep q hq hlive
    refine (h2.keep q (fun hq' => ?_) (hkeep ▸ hlive)).trans hkeep
    exact (h1.fresh q hq').elim hq hlive
  · intro b hb
    rcases h2.fresh b hb with hb | hnone
    · exact h1.fresh b hb
    · by_contra hnot
      rw [not_or] at hnot
      exact hnot.2 ((h1.keep b hnot.1 hnot.2).symm.trans hnone)

theorem Drawn.alloc (halloc : A.alloc SlabBlock.layout h = some (b, h')) : Drawn A h blocks h' (b :: blocks) := by
  constructor
  · rintro q - hlive
    rw [A.alloc_live halloc, update_of_ne]
    rintro rfl
    exact hlive (A.alloc_fresh halloc)
  · intro b' hb'
    rcases mem_cons.1 hb' with rfl | hb'
    · exact .inr (A.alloc_fresh halloc)
    · exact .inl hb'

theorem Drawn.free (hlive : A.live h b = some SlabBlock.layout) (hb : b ∈ blocks) (hsub : blocks' ⊆ blocks) :
    Drawn A h blocks (A.free b SlabBlock.layout h) blocks' := by
  refine ⟨fun q hq _ => ?_, fun b' hb' => .inl (hsub hb')⟩
  rw [A.free_live hlive, update_of_ne]
  rintro rfl
  exact hq hb
end Drawn

/-- An operation led to `s'`, where the allocations `live` are live. -/
def Leads (A : Allocator H lo hi) (s : SlabHeap H) (blocks : List ℕ) (live : List Cut) (s' : SlabHeap H) :
    Prop :=
  ∃ blocks', SlabInv A s' live blocks' ∧ Drawn A s.allocator blocks s'.allocator blocks' ∧ s'.slab.size = s.slab.size

theorem SlabInv.init_wp (h : SlabInv A s [] []) :
    (SlabAllocator.init A).wp (fun _ => Leads A s [] []) (fun _ => Leads A s [] []) s := by
  obtain ⟨last, -, hfirst⟩ := h.linked
  rw [SlabAllocator.init, wp_bind]
  cases halloc : A.alloc SlabBlock.layout s.allocator with
  | none =>
    rw [wp_of_err (newBlock_none halloc)]
    exact ⟨[], h, Drawn.refl, rfl⟩
  | some r =>
    obtain ⟨b, k⟩ := r
    rw [wp_of_ok (newBlock_some halloc), wp_modify]
    -- without a first block, pushing is all there is to do
    have hpushed : ((s.setAllocator k).store b (SlabBlock.fresh s.slab.size b)).setBlock (some b) =
        s.pushed b k := by
      rw [pushed, hfirst]
      rfl
    rw [hpushed]
    exact ⟨[b], h.push halloc, Drawn.alloc halloc, rfl⟩

/-! ## Allocating -/

/-- A layout that the slab allocator accepts. -/
def SlabAllocator.Fits (layout : Layout) (slab : SlabAllocator) : Prop :=
  layout.size ≤ slab.size ∧ layout.align ≤ slab.size

/-- Some block has space. -/
def SlabAllocator.HasRoom (slab : SlabAllocator) : Prop :=
  ∃ b, SlabBlock.links.walk slab.memory (fun v => !v.isFull slab.size) (2 ^ 64) slab.block = .ok (some b)

variable {layout : Layout}

theorem SlabAllocator.checkLayout_fits (hfits : s.slab.Fits layout) : checkLayout layout s = .ok () s := by
  simp only [checkLayout, bind_apply, get_apply, andThen_ok,
    if_neg hfits.1.not_gt, canAcceptAlign, decide_eq_true hfits.2, Bool.not_true,
    Bool.false_eq_true, if_false, pure_apply]

theorem SlabAllocator.checkLayout_not_fits (hfits : ¬ s.slab.Fits layout) : ∃ e, checkLayout layout s = .err e s := by
  simp only [checkLayout, bind_apply, get_apply, andThen_ok]
  by_cases hsize : s.slab.size < layout.size
  · exact ⟨_, by rw [if_pos hsize]; rfl⟩
  · have halign : ¬ layout.align ≤ s.slab.size := fun hle => hfits ⟨Nat.le_of_not_lt hsize, hle⟩
    refine ⟨.invalidAllocAlign layout.align s.slab.size, ?_⟩
    rw [if_neg hsize, canAcceptAlign, decide_eq_false halign]
    rfl

theorem SlabInv.findRoom (h : SlabInv A s live blocks) (hhi : hi ≤ 2 ^ 64) :
    SlabBlock.links.walk s.slab.memory (fun v => !v.isFull s.slab.size) (2 ^ 64) s.slab.block =
      .ok (blocks.find? fun b => (s.slab.memory b).any fun v => !v.isFull s.slab.size) := by
  obtain ⟨last, hlinked⟩ := h.linked
  exact hlinked.walk _ (h.length_lt hhi)

theorem SlabInv.hasRoom_iff (h : SlabInv A s live blocks) (hhi : hi ≤ 2 ^ 64) :
    s.slab.HasRoom ↔ ∃ b ∈ blocks, ∃ v, s.slab.memory b = some v ∧ v.isFull s.slab.size = false := by
  rw [SlabAllocator.HasRoom, h.findRoom hhi]
  constructor
  · rintro ⟨b, hb⟩
    have hfind := Except.ok.inj hb
    have hmem := mem_of_find?_eq_some hfind
    obtain ⟨v, hv, -⟩ := h.carved b hmem
    have hroom := find?_some hfind
    rw [hv, Option.any_some, Bool.not_eq_true'] at hroom
    exact ⟨b, hmem, v, hv, hroom⟩
  · rintro ⟨b, hb, v, hv, hroom⟩
    have hsome : (blocks.find? fun b => (s.slab.memory b).any fun v => !v.isFull s.slab.size).isSome := by
      rw [find?_isSome]
      refine ⟨b, hb, ?_⟩
      rw [hv, Option.any_some, hroom]
      rfl
    obtain ⟨b', hb'⟩ := Option.isSome_iff_exists.1 hsome
    exact ⟨b', congrArg Except.ok hb'⟩

/-- Allocating from a block with space. -/
theorem SlabInv.allocIn_wp (h : SlabInv A s live blocks) (hfits : s.slab.Fits layout) (hb : b ∈ blocks)
    (hv : s.slab.memory b = some v) (hroom : v.isFull s.slab.size = false) :
    (allocIn b s.slab.size).wp (fun ptr s' => Leads A s blocks (⟨ptr, layout, b⟩ :: live) s') (fun _ _ => False) s := by
  rw [wp_of_ok (h.allocIn_eq hb hv hroom)]
  exact ⟨blocks, h.cutNew hb hv hroom hfits.1 hfits.2, Drawn.refl, rfl⟩

/-- The post-condition of an allocation that returns. -/
def Allocated (A : Allocator H lo hi) (s : SlabHeap H) (live : List Cut) (blocks : List ℕ) (layout : Layout)
    (r : ℕ × ℕ) (s' : SlabHeap H) : Prop :=
  Leads A s blocks (⟨r.2, layout, r.1⟩ :: live) s' ∧ s.slab.Fits layout ∧
    (s.slab.HasRoom ∨ A.alloc SlabBlock.layout s.allocator ≠ none)

/-- The post-condition of an allocation that fails: either the layout is refused, or there is no space
and either no block to be had or none that a block has space in. -/
def Refused (A : Allocator H lo hi) (s : SlabHeap H) (live : List Cut) (blocks : List ℕ) (layout : Layout)
    (s' : SlabHeap H) : Prop :=
  Leads A s blocks live s' ∧ (s.slab.Fits layout → ¬ s.slab.HasRoom ∧ (A.alloc SlabBlock.layout s.allocator = none ∨
      ∃ b, (SlabBlock.fresh s.slab.size b).isFull s.slab.size = true))

/-- Allocating along the list. -/
theorem SlabInv.allocAlong_wp (h : SlabInv A s live blocks) (hhi : hi ≤ 2 ^ 64)
    (hfits : s.slab.Fits layout) (hfirst : s.slab.block = some b) :
    (allocAlong A b s.slab.size).wp (Allocated A s live blocks layout) (fun _ => Refused A s live blocks layout) s := by
  have hiff := h.hasRoom_iff hhi
  rw [allocAlong, wp_bind, findBlockWithSpace, wp_of_ok (h.findBlock hhi hfirst _)]
  cases hfind : blocks.find? fun b => (s.slab.memory b).any fun v => !v.isFull s.slab.size with
  | some b' =>
    have hb' := mem_of_find?_eq_some hfind
    obtain ⟨v, hv, -⟩ := h.carved b' hb'
    have hroom := find?_some hfind
    rw [hv, Option.any_some, Bool.not_eq_true'] at hroom
    simp only [wp_bind, wp_pure]
    refine wp_mono (h.allocIn_wp hfits hb' hv hroom) (fun ptr s' hleads => ?_) fun _ _ => False.elim
    exact ⟨hleads, hfits, .inl (hiff.2 ⟨b', hb', v, hv, hroom⟩)⟩
  | none =>
    have hfull : ¬ s.slab.HasRoom := by
      rintro ⟨b', hb'⟩
      rw [h.findRoom hhi, hfind] at hb'
      exact absurd (Except.ok.inj hb') (by simp)
    simp only [wp_bind, wp_pure]
    cases halloc : A.alloc SlabBlock.layout s.allocator with
    | none =>
      rw [wp_of_err (pushNewBlock_none halloc)]
      exact ⟨⟨blocks, h, Drawn.refl, rfl⟩, fun _ => ⟨hfull, .inl halloc⟩⟩
    | some r =>
      obtain ⟨b', k⟩ := r
      rw [wp_of_ok (h.pushNewBlock_some halloc)]
      have hpush := h.push halloc
      have hdrawn : Drawn A s.allocator blocks k (b' :: blocks) := Drawn.alloc halloc
      have hv := h.pushed_memory halloc
      cases hroom : (SlabBlock.fresh s.slab.size b').isFull s.slab.size with
      | false =>
        refine wp_mono (hpush.allocIn_wp hfits mem_cons_self hv hroom) (fun ptr s' hleads => ?_) fun _ _ => False.elim
        obtain ⟨blocks', hinv, hdrawn', hsize⟩ := hleads
        refine ⟨⟨blocks', hinv, hdrawn.trans hdrawn', hsize⟩, hfits, .inr ?_⟩
        rw [halloc]
        exact Option.some_ne_none _
      | true =>
        rw [wp_of_err (allocIn_full hv hroom)]
        exact ⟨⟨b' :: blocks, hpush, hdrawn, rfl⟩, fun _ => ⟨hfull, .inr ⟨b', hroom⟩⟩⟩

/-- **What `alloc` does.** -/
theorem SlabInv.allocFrom_wp (h : SlabInv A s live blocks) (hhi : hi ≤ 2 ^ 64) (layout : Layout) :
    (allocFrom A layout).wp (Allocated A s live blocks layout) (fun _ => Refused A s live blocks layout) s := by
  rw [allocFrom, wp_bind]
  by_cases hfits : s.slab.Fits layout
  · rw [wp_of_ok (checkLayout_fits hfits), wp_bind, wp_get, wp_bind,
      firstBlockOrPush, wp_bind, wp_get]
    cases hfirst : s.slab.block with
    | some b => exact h.allocAlong_wp hhi hfits hfirst
    | none =>
      have hfull : ¬ s.slab.HasRoom := by
        rintro ⟨b, hb⟩
        rw [hfirst] at hb
        exact absurd (Except.ok.inj hb) (by simp)
      cases halloc : A.alloc SlabBlock.layout s.allocator with
      | none =>
        refine (wp_of_err (pushNewBlock_none halloc)).2 ?_
        exact ⟨⟨blocks, h, Drawn.refl, rfl⟩, fun _ => ⟨hfull, .inl halloc⟩⟩
      | some r =>
        obtain ⟨b, k⟩ := r
        refine (wp_of_ok (h.pushNewBlock_some halloc)).2 ?_
        have hpush := h.push halloc
        have hdrawn : Drawn A s.allocator blocks k (b :: blocks) := Drawn.alloc halloc
        refine wp_mono (hpush.allocAlong_wp hhi hfits rfl) ?_ ?_
        · rintro ⟨b', ptr⟩ s' ⟨⟨blocks', hinv, hdrawn', hsize⟩, -, -⟩
          refine ⟨⟨blocks', hinv, hdrawn.trans hdrawn', hsize⟩, hfits, .inr ?_⟩
          rw [halloc]
          exact Option.some_ne_none _
        · rintro - s' ⟨⟨blocks', hinv, hdrawn', hsize⟩, hrefused⟩
          refine ⟨⟨blocks', hinv, hdrawn.trans hdrawn', hsize⟩, fun _ => ⟨hfull, .inr ⟨b, ?_⟩⟩⟩
          -- the new block is the only one, and it had no space
          by_contra hroom
          refine (hrefused hfits).1 ((hpush.hasRoom_iff hhi).2 ⟨b, mem_cons_self, _, h.pushed_memory halloc, ?_⟩)
          exact Bool.eq_false_of_not_eq_true hroom
  · obtain ⟨e, he⟩ := checkLayout_not_fits hfits
    rw [wp_of_err he]
    exact ⟨⟨blocks, h, Drawn.refl, rfl⟩, fun hf => absurd hf hfits⟩

/-! ## Freeing -/

variable {l1 l2 : List Cut}

/-- **An allocation is returned** to its block. -/
theorem SlabInv.freed (h : SlabInv A s (l1 ++ e :: l2) blocks) (hv : s.slab.memory e.block = some v) :
    SlabInv A (s.store e.block (v.addFreed s.slab.size)) (l1 ++ l2) blocks := by
  have he : e ∈ l1 ++ e :: l2 := mem_append_cons_self
  have hsublist : (l1 ++ l2).Sublist (l1 ++ e :: l2) := (sublist_cons_self e l2).append_left l1
  have hsub := hsublist.subset
  refine ⟨h.size_dvd, h.linked_store hv rfl rfl, h.apart, h.inside, h.held, fun b' hb' => ?_,
    fun e' he' => h.cut e' (hsub he'), ?_⟩
  · obtain ⟨w, hw, hcarved⟩ := h.carved b' hb'
    by_cases heq : b' = e.block
    · subst heq
      cases hv.symm.trans hw
      obtain ⟨k, hk, hslots⟩ := hcarved.slots
      refine ⟨v.addFreed s.slab.size, update_self .., hcarved.start_eq, hcarved.end_eq,
        ⟨k, hk, fun e' he' => hslots e' (hsub he')⟩, hcarved.room, ?_⟩
      have hbalance := hcarved.balance
      have hcount : (e :: l2).countP (fun e' => e'.block = e.block) =
          l2.countP (fun e' => e'.block = e.block) + 1 := countP_cons_of_pos (decide_eq_true rfl)
      rw [countP_append, hcount, ← add_assoc, Nat.mul_succ] at hbalance
      rw [countP_append]
      show s.slab.size * _ + (v.freed + s.slab.size) = v.used
      omega
    · refine ⟨w, (update_of_ne heq ..).trans hw, hcarved.of_iff (fun e' he' => ?_) ?_⟩
      · have hne : e' ≠ e := fun hee => heq (he'.symm.trans (congrArg Cut.block hee))
        rw [List.mem_append, List.mem_append, List.mem_cons, or_iff_right hne]
      · have hcount : (e :: l2).countP (fun e' => e'.block = b') = l2.countP fun e' => e'.block = b' :=
          List.countP_cons_of_neg fun hd => heq (of_decide_eq_true hd).symm
        rw [countP_append, countP_append, hcount]
  · exact h.distinct.sublist hsublist

/-- **A block that is freed has no live allocation.** -/
theorem SlabInv.ne_of_isFreed (h : SlabInv A s live blocks) (hb : b ∈ blocks) (hv : s.slab.memory b = some v)
    (hfreed : v.isFreed s.slab.size = true) (he : e ∈ live) : e.block ≠ b := by
  intro heq
  obtain ⟨w, hw, hcarved⟩ := h.carved b hb
  cases hv.symm.trans hw
  have hpos : 0 < live.countP (fun e => e.block = b) := countP_pos_iff.2 ⟨e, he, decide_eq_true heq⟩
  have hle : s.slab.size ≤ s.slab.size * live.countP (fun e => e.block = b) := Nat.le_mul_of_pos_right _ hpos
  have hbalance := hcarved.balance
  obtain ⟨-, -, hroom⟩ := hcarved.bounds h.size_pos he heq
  have hend : v.end_ ≤ v.start + v.freed + s.slab.size := of_decide_eq_true hfreed
  omega

/-- The state after a block has been given back. -/
def SlabHeap.released (A : Allocator H lo hi) (b : ℕ) (v : SlabBlock) (s : SlabHeap H) : SlabHeap H :=
  (((s.setMemory (SlabBlock.links.unlink v s.slab.memory)).setBlock
    (SlabBlock.links.firstWithout v s.slab.block)).forget b).setAllocator (A.free b SlabBlock.layout s.allocator)

section
variable (h : SlabInv A s live blocks)
include h

theorem SlabInv.releaseBlock_eq (hb : b ∈ blocks) (hv : s.slab.memory b = some v) :
    releaseBlock A b v s = .ok () (s.released A b v) := by
  obtain ⟨l1, l2, rfl⟩ := append_of_mem hb
  obtain ⟨last, hlinked⟩ := h.linked
  obtain ⟨hprev, hnext⟩ := hlinked.neighbours hv
  have hheader : ∀ b' ∈ l1 ++ b :: l2, ∃ w, s.slab.memory b' = some w := by
    intro b' hb'
    obtain ⟨w, hw, -⟩ := h.carved b' hb'
    exact ⟨w, hw⟩
  have hfirst : ∀ p, v.prev = some p → ∃ w, s.slab.memory p = some w :=
    fun p hp => hheader p (mem_append_left _ (hprev p hp))
  have hsecond : ∀ q, v.next = some q → ∃ w, (s.setMemory (Links.adjust (SlabBlock.setNext v.next)
      s.slab.memory v.prev)).slab.memory q = some w := by
    intro q hq
    obtain ⟨w, hw⟩ := hheader q (mem_append_right _ (mem_cons_of_mem b (hnext q hq)))
    rcases Links.adjust_some hw with hadjust | hadjust
    · exact ⟨w, hadjust⟩
    · exact ⟨_, hadjust⟩
  simp only [releaseBlock, bind_apply, updateLink_eq hfirst, updateLink_eq hsecond, andThen_ok]
  by_cases hnone : v.prev = none
  · have hwithout : SlabBlock.links.firstWithout v s.slab.block = v.next := if_pos hnone
    rw [if_pos hnone, released, hwithout]
    rfl
  · have hwithout : SlabBlock.links.firstWithout v s.slab.block = s.slab.block := if_neg hnone
    rw [if_neg hnone, released, hwithout]
    rfl

/-- **A block without live allocations is given back.** -/
theorem SlabInv.release (hb : b ∈ blocks) (hv : s.slab.memory b = some v)
    (hnone : ∀ e ∈ live, e.block ≠ b) : Leads A s blocks live (s.released A b v) := by
  obtain ⟨l1, l2, rfl⟩ := append_of_mem hb
  obtain ⟨last, hlinked⟩ := h.linked
  have hsublist : (l1 ++ l2).Sublist (l1 ++ b :: l2) := (sublist_cons_self b l2).append_left l1
  have hsub := hsublist.subset
  have hout : b ∉ l1 ++ l2 := (nodup_middle.1 h.nodup).notMem
  have hheld := h.held b hb
  refine ⟨l1 ++ l2, ⟨h.size_dvd, ?_, h.apart.sublist hsublist, fun b' hb' => h.inside b' (hsub hb'), ?_, ?_,
    fun e he => ?_, h.distinct⟩, Drawn.free hheld hb hsub, rfl⟩
  · obtain ⟨last', hunlinked⟩ := hlinked.unlink h.nodup hv
    exact ⟨last', hunlinked.frame hout none⟩
  · intro b' hb'
    show A.live (A.free b SlabBlock.layout s.allocator) b' = _
    rw [A.free_live hheld, update_of_ne (ne_of_mem_of_not_mem hb' hout)]
    exact h.held b' (hsub hb')
  · intro b' hb'
    obtain ⟨w, hw, hcarved⟩ := h.carved b' (hsub hb')
    -- a neighbour got another link
    have hkeep : ∃ w', SlabBlock.links.unlink v s.slab.memory b' = some w' ∧ w'.counters = w.counters := by
      rcases Links.adjust_some hw with hfirst | hfirst
      all_goals rcases Links.adjust_some hfirst with hsecond | hsecond
      all_goals exact ⟨_, hsecond, rfl⟩
    obtain ⟨w', hw', hcounters⟩ := hkeep
    exact ⟨w', (update_of_ne (ne_of_mem_of_not_mem hb' hout) ..).trans hw', hcarved.congr hcounters⟩
  · obtain ⟨hblock, hlayout⟩ := h.cut e he
    refine ⟨?_, hlayout⟩
    rw [List.mem_append, List.mem_cons] at hblock
    rw [List.mem_append]
    exact hblock.imp_right fun hblock => hblock.resolve_left (hnone e he)

/-- **What `free` does** with a live allocation. -/
theorem SlabInv.free_wp (hhi : hi ≤ 2 ^ 64) (he : e ∈ live) : (SlabAllocator.free A e.ptr e.layout).wp
      (fun _ => Leads A s blocks (live.eraseP fun e' => e'.ptr = e.ptr)) (fun _ _ => False) s := by
  obtain ⟨hblock, hfits⟩ := h.cut e he
  obtain ⟨v, hv, -⟩ := h.carved e.block hblock
  -- the allocation that is erased is this one
  obtain ⟨e', l1, l2, -, hptr, rfl, herase⟩ := exists_of_eraseP
    (p := fun e' => decide (e'.ptr = e.ptr)) he (decide_eq_true rfl)
  have hee : e = e' := h.eq_of_ptr he mem_append_cons_self (of_decide_eq_true hptr).symm
  subst hee
  rw [herase]
  obtain ⟨first, hfirst⟩ := h.exists_first hblock
  rw [SlabAllocator.free, wp_bind, wp_of_ok (checkLayout_fits hfits), wp_bind, wp_get]
  simp only [hfirst]
  rw [wp_bind, wp_of_ok (h.findBlockContaining hhi hfirst he)]
  simp only []
  have hfreed := h.freed hv
  have hv' : (s.store e.block (v.addFreed s.slab.size)).slab.memory e.block =
    some (v.addFreed s.slab.size) := update_self ..
  rw [wp_bind, wp_of_ok (update_eq hv), wp_bind, wp_of_ok (deref_eq hv')]
  cases hall : (v.addFreed s.slab.size).isFreed s.slab.size with
  | false => exact ⟨blocks, hfreed, Drawn.refl, rfl⟩
  | true =>
    rw [if_pos rfl, wp_of_ok (hfreed.releaseBlock_eq hblock hv')]
    exact hfreed.release hblock hv' fun e'' he'' => hfreed.ne_of_isFreed hblock hv' hall he''
end
end WasabiOS
