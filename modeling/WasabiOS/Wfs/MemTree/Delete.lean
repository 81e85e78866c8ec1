import WasabiOS.Wfs.MemTree.Rebalance

/-!
# Wfs/MemTree/Delete — deleting from trees of one and two levels

`delete` takes the file out of its leave.  A leave that falls below half of its capacity gets a file
from a neighbour or merges with it; when the root is left with one child, that becomes the root.
-/

open Machinery Prog Machinery.Keyed
namespace WasabiOS
open Child Store StaticVec List
variable {α : Type} {cs pre post : List (Child α)} {i : ℕ} {x y c : Child α} {V : FileView α}
  {s0 s : Store (Disk Block)} {r a : Addr} {ptr : Option (DevicePointer .treeNode)} {d : Bool}
  {Q : Unit → Store (Disk Block) → Prop} {E : MemTreeError → Store (Disk Block) → Prop}
  {result : Store.ChildrenForRebalance} {fx fy : Files}

/-! ## A leave that lacks a file -/

/-- The children are as they should be, but the one at `i` has one file less than half. -/
structure Unbalanced {α : Type} (key : α → FileId) (cs : List (Child α)) (i : ℕ) : Prop where
  chained : Child.Chained key 0 cs
  two_le : 2 ≤ cs.length
  unlocked : ∀ c ∈ cs, c.locked = false
  sorted : ∀ c ∈ cs, Sorted key c.files
  le_max : ∀ c ∈ cs, c.files.length ≤ LEAVE_MAX_FILE_COUNT
  half : ∀ j < cs.length, j ≠ i → LEAVE_MAX_FILE_COUNT / 2 ≤ sizeAt cs j
  short : sizeAt cs i + 1 = LEAVE_MAX_FILE_COUNT / 2

namespace Unbalanced
variable {key : α → FileId} {cs' : List (Child α)} {e : Child α}

theorem reloaded (h : Unbalanced key cs i) (hr : List.Forall₂ Child.Reloaded cs cs') : Unbalanced key cs' i := by
  have hmap := Child.Reloaded.map_forget hr
  have hmem : ∀ c ∈ cs', ∃ e ∈ cs, e.files = c.files := by
    intro c hc
    have : c.forget ∈ cs.map forget := hmap ▸ mem_map_of_mem hc
    obtain ⟨e, he, hec⟩ := mem_map.1 this
    exact ⟨e, he, by rw [← forget_files, hec, forget_files]⟩
  refine { chained := ?_, two_le := ?_, unlocked := ?_, sorted := ?_, le_max := ?_, half := ?_,
           short := ?_ }
  · rw [← chained_map_forget, hmap, chained_map_forget]
    exact h.chained
  · rw [Child.Reloaded.length_eq hr]
    exact h.two_le
  · exact Child.Reloaded.unlocked hr h.unlocked
  · intro c hc
    obtain ⟨e, he, hfiles⟩ := hmem c hc
    exact hfiles ▸ h.sorted e he
  · intro c hc
    obtain ⟨e, he, hfiles⟩ := hmem c hc
    exact hfiles ▸ h.le_max e he
  · rw [sizeAt_eq hr, Child.Reloaded.length_eq hr]
    exact h.half
  · rw [sizeAt_eq hr]
    exact h.short

/-- One child of a valid tree lost a file too many. -/
theorem of_valid {d : Child α} (hv : Child.Valid key (pre ++ c :: post)) (hmax : d.max = c.max)
    (hlocked : d.locked = false) (hsorted : Sorted key d.files)
    (hsize : d.files.length + 1 = LEAVE_MAX_FILE_COUNT / 2)
    (hrange : ∀ f ∈ d.files, floor 0 pre < (key f).get ∧ key f ≤ c.max.getD FileId.MAX) :
    Unbalanced key (pre ++ d :: post) pre.length := by
  have hmem : ∀ e, e ∈ pre ∨ e ∈ post → e ∈ pre ++ c :: post := fun e he => mem_focus.2 (.inr he)
  refine { chained := ?_, two_le := by simpa using hv.two_le, unlocked := ?_, sorted := ?_,
           le_max := ?_, half := ?_, short := ?_ }
  · exact chained_append.2 ⟨(chained_append.1 hv.chained).1, hv.tail.setFiles hmax hrange⟩
  · intro e he
    rcases mem_focus.1 he with rfl | he
    · exact hlocked
    · exact hv.unlocked e (hmem e he)
  · intro e he
    rcases mem_focus.1 he with rfl | he
    · exact hsorted
    · exact (hv.fits e (hmem e he)).sorted
  · intro e he
    rcases mem_focus.1 he with rfl | he
    · simp only [LEAVE_MAX_FILE_COUNT] at hsize ⊢
      omega
    · exact (hv.fits e (hmem e he)).le_max
  · intro j hj hne
    have hset : pre ++ d :: post = (pre ++ c :: post).set pre.length d := by simp
    have hj' : j < (pre ++ c :: post).length := by simpa using hj
    have hsizeAt : sizeAt (pre ++ d :: post) j = ((pre ++ c :: post).get ⟨j, hj'⟩).files.length := by
      rw [hset, sizeAt, getD_eq_getElem?_getD, getElem?_map, getElem?_set_ne hne.symm, getElem?_eq_getElem hj']
      rfl
    rw [hsizeAt]
    exact (hv.fits _ (get_mem _ _)).half
  · rw [sizeAt_focus]
    exact hsize

theorem fits (h : Unbalanced key (pre ++ e :: post) i) (hi : pre.length ≠ i) : e.Fits key where
  sorted := h.sorted e (mem_focus.2 (.inl rfl))
  half := by
    have := h.half pre.length (by simp) hi
    rwa [sizeAt_focus] at this
  le_max := h.le_max e (mem_focus.2 (.inl rfl))

/-- Around a pair with the unbalanced child everything fits. -/
theorem fits_outside (h : Unbalanced key (pre ++ x :: y :: post) i)
    (hi : i = pre.length ∨ i = pre.length + 1) (he : e ∈ pre ∨ e ∈ post) :
    e.Fits key ∧ e.locked = false := by
  refine ⟨?_, h.unlocked e (by simp; tauto)⟩
  rcases he with he | he
  · obtain ⟨p, q, rfl⟩ := append_of_mem he
    have h' : Unbalanced key (p ++ e :: (q ++ x :: y :: post)) i := by simpa using h
    refine h'.fits ?_
    simp only [length_append, length_cons] at hi
    omega
  · obtain ⟨p, q, rfl⟩ := append_of_mem he
    have h' : Unbalanced key ((pre ++ x :: y :: p) ++ e :: q) i := by simpa using h
    refine h'.fits ?_
    simp only [length_append, length_cons]
    omega

theorem tail (h : Unbalanced key (pre ++ e :: post) i) :
    Child.Chained key (floor 0 pre) (e :: post) := (chained_append.1 h.chained).2

/-- The pair is replaced by children that fit. -/
theorem splice {mid : Child α} {rest : List (Child α)} (h : Unbalanced key (pre ++ x :: y :: post) i)
    (hi : i = pre.length ∨ i = pre.length + 1)
    (hchained : Child.Chained key (floor 0 pre) (mid :: rest))
    (hnew : ∀ e ∈ mid :: rest, e.Fits key ∧ e.locked = false ∨ e ∈ post)
    (htwo : 2 ≤ (pre ++ mid :: rest).length) : Child.Valid key (pre ++ mid :: rest) := by
  have hall : ∀ e ∈ pre ++ mid :: rest, e.Fits key ∧ e.locked = false := by
    intro e he
    rcases mem_append.1 he with he | he
    · exact h.fits_outside hi (.inl he)
    · exact (hnew e he).elim id fun he => h.fits_outside hi (.inr he)
  exact ⟨chained_append.2 ⟨(chained_append.1 h.chained).1, hchained⟩,
    fun e he => (hall e he).1, htwo, fun e he => (hall e he).2⟩

/-- The files of a leave are below those of the leaves after it. -/
theorem lt_of_mem_after {f g : α} (h : Unbalanced key (pre ++ x :: post) i) (hf : f ∈ x.files)
    (hg : g ∈ entries post) : key f < key g :=
  h.tail.lt_after (h.tail.1 f hf).2 hg

theorem takeFromRight {k : α} {rest : List α} (h : Unbalanced key (pre ++ x :: y :: post) pre.length)
    (hy : LEAVE_MAX_FILE_COUNT / 2 < y.files.length) (hfiles : y.files = k :: rest) :
    Child.Valid key (pre ++ (x.withMax (some (key k))).withFiles (x.files ++ [k]) :: y.withFiles rest :: post) := by
  have hys : Sorted key y.files := h.sorted y (by simp)
  have hxlen : x.files.length + 1 = LEAVE_MAX_FILE_COUNT / 2 := by
    have := h.short
    rwa [sizeAt_focus] at this
  have hlen : y.files.length = rest.length + 1 := by rw [hfiles]; rfl
  have hymax := h.le_max y (by simp)
  simp only [LEAVE_MAX_FILE_COUNT] at hxlen hy hymax
  have hrest : rest ≠ [] := ne_nil_of_length_pos (by omega)
  refine h.splice (.inl rfl) (h.tail.takeFromRight hfiles hys hrest rfl rfl rfl rfl) ?_ (by simp; omega)
  intro e he
  rcases mem_cons.1 he with rfl | he
  · refine .inl ⟨⟨sorted_append.2 ⟨h.sorted x (by simp), pairwise_singleton _ _, ?_⟩, ?_, ?_⟩, h.unlocked x (by simp)⟩
    · intro f hf g hg
      exact h.lt_of_mem_after hf (by simp [hfiles, mem_singleton.1 hg])
    all_goals
      simp only [withFiles, withMax, length_append, length_singleton, LEAVE_MAX_FILE_COUNT]
      omega
  · rcases mem_cons.1 he with rfl | he
    · refine .inl ⟨⟨(sorted_cons.1 (hfiles ▸ hys)).2, ?_, ?_⟩, h.unlocked y (by simp)⟩
      all_goals
        simp only [withFiles, LEAVE_MAX_FILE_COUNT]
        omega
    · exact .inr he

theorem takeFromLeft {k z : α} {init : List α} (h : Unbalanced key (pre ++ x :: y :: post) (pre.length + 1))
    (hx : LEAVE_MAX_FILE_COUNT / 2 < x.files.length) (hfiles : x.files = init ++ [k])
    (hz : init.getLast? = some z) :
    Child.Valid key (pre ++ (x.withMax (some (key z))).withFiles init :: y.withFiles (k :: y.files) :: post) := by
  have hxs : Sorted key x.files := h.sorted x (by simp)
  have hinit : Sorted key init := (sorted_append.1 (hfiles ▸ hxs)).1
  have hylen : y.files.length + 1 = LEAVE_MAX_FILE_COUNT / 2 := by
    have := h.short
    rwa [sizeAt_second] at this
  have hlen : x.files.length = init.length + 1 := by rw [hfiles, length_append]; rfl
  have hxmax := h.le_max x (by simp)
  simp only [LEAVE_MAX_FILE_COUNT] at hylen hx hxmax
  refine h.splice (.inr rfl) (h.tail.takeFromLeft hfiles hxs (mem_of_getLast? hz)
    (hinit.le_getLast hz) rfl rfl rfl rfl) ?_ (by simp; omega)
  intro e he
  rcases mem_cons.1 he with rfl | he
  · refine .inl ⟨⟨hinit, ?_, ?_⟩, h.unlocked x (by simp)⟩
    all_goals
      simp only [withFiles, LEAVE_MAX_FILE_COUNT]
      omega
  · rcases mem_cons.1 he with rfl | he
    · refine .inl ⟨⟨sorted_cons.2 ⟨fun g hg => ?_, h.sorted y (by simp)⟩, ?_, ?_⟩, h.unlocked y (by simp)⟩
      · exact h.lt_of_mem_after (by simp [hfiles]) (by simp [hg])
      all_goals
        simp only [withFiles, length_cons, LEAVE_MAX_FILE_COUNT]
        omega
    · exact .inr he

section
variable (h : Unbalanced key (pre ++ x :: y :: post) i)
include h

theorem sorted_pair : Sorted key (x.files ++ y.files) :=
  sorted_append.2 ⟨h.sorted x (by simp), h.sorted y (by simp), fun _ hf _ hg => h.lt_of_mem_after hf (by simp [hg])⟩

/-- Of two neighbours with the unbalanced leave one is at least half full. -/
theorem half_le_pair (hi : i = pre.length ∨ i = pre.length + 1) :
    LEAVE_MAX_FILE_COUNT / 2 ≤ x.files.length + y.files.length := by
  rcases hi with rfl | rfl
  · have := h.half (pre.length + 1) (by simp) (by omega)
    rw [sizeAt_second] at this
    omega
  · have := h.half pre.length (by simp) (by omega)
    rw [sizeAt_focus] at this
    omega

theorem merge (hi : i = pre.length ∨ i = pre.length + 1)
    (hsize : x.files.length + y.files.length ≤ LEAVE_MAX_FILE_COUNT) (n : Addr)
    (htwo : 1 ≤ pre.length + post.length) :
    Child.Valid key (pre ++ Child.fresh n y.max (x.files ++ y.files) :: post) := by
  refine h.splice hi (h.tail.merge rfl rfl) ?_ (by simp; omega)
  intro e he
  rcases mem_cons.1 he with rfl | he
  · refine .inl ⟨⟨h.sorted_pair, ?_, ?_⟩, rfl⟩
    · simpa [Child.fresh] using h.half_le_pair hi
    · simpa [Child.fresh] using hsize
  · exact .inr he
end
end Unbalanced

/-! ## Moving files between neighbours -/

namespace NodeRoot
variable {b : Addr} {rl l : Bool}

/-- A separator is changed; some leave is dirty, so the root's block does not matter. -/
theorem setMax {dc : Bool} (H : NodeRoot V s0 s ptr r rl l d dc (pre ++ c :: post))
    (hdirty : ∃ e ∈ pre ++ c :: post, e.dirty = true) (max : Option FileId)
    (hQ : ∀ children : Children, let s' := s.setNode r (some (.node none children d dc l))
      NodeRoot V s0 s' ptr r rl l d dc (pre ++ c.withMax max :: post) → Q () s') :
    (setMax r pre.length max : Prog (Store (Disk Block)) MemTreeError Unit).wp Q E s := by
  obtain ⟨children, hr, hchildren⟩ := H.node
  obtain ⟨children', hset, hlist⟩ := exists_setIdx (v := children) (i := pre.length)
    (c.link, max) (by simp [StaticVec.len, hchildren])
  rw [wp_setMax hr]
  refine ⟨c.entry, by simp [hchildren], children', hset, hQ children' (H.setSelf ?_ ?_ ?_ ?_ ?_)⟩
  · rw [hlist, hchildren]
    simp [entry, withMax]
  · intro e he
    rcases mem_focus.1 he with rfl | he
    · exact H.child.withMax max
    · exact H.children e (mem_focus.2 (.inr he))
  · rw [addrs_replace (d := c.withMax max) (c := c) rfl]
    exact H.distinct
  · intro e he
    rcases mem_focus.1 he with rfl | he
    · exact H.marked c (mem_focus.2 (.inl rfl))
    · exact H.marked e (mem_focus.2 (.inr he))
  · intro _ hall
    obtain ⟨e, he, hd⟩ := hdirty
    have hclean : e.dirty = false := by
      rcases mem_focus.1 he with rfl | he
      · exact hall (e.withMax max) (mem_focus.2 (.inl rfl))
      · exact hall e (mem_focus.2 (.inr he))
    simp [hd] at hclean

/-- The files of both neighbours are overwritten. -/
theorem setPair (H : NodeRoot V s0 s ptr r rl l d true (pre ++ x :: y :: post))
    (ha : x.link.node = some a) (hb : y.link.node = some b) (fx fy : Files)
    (hfx : ∀ f ∈ fx.toList, V.Held s.tree.nextCell f)
    (hfy : ∀ f ∈ fy.toList, V.Held s.tree.nextCell f) :
    NodeRoot V s0 ((s.setNode a (some (.leave (some r) fx true x.locked))).setNode b
        (some (.leave (some r) fy true y.locked))) ptr r rl l d true
      (pre ++ x.withFiles (fx.toList.map (V.mem s.tree.cells)) ::
        y.withFiles (fy.toList.map (V.mem s.tree.cells)) :: post) := by
  have H1 := H.setChild (x.withFiles (fx.toList.map (V.mem s.tree.cells))) ha rfl rfl rfl hfx
    (fun _ => rfl) Bool.noConfusion
  exact (H1.second.setChild (y.withFiles (fy.toList.map (V.mem s.tree.cells))) hb rfl rfl rfl hfy
    (fun _ => rfl) Bool.noConfusion).first
end NodeRoot

/-! ## Taking a file from a neighbour -/

/-- The blocks of children on the device. -/
def Child.ptrs {α : Type} (cs : List (Child α)) : List (DevicePointer .treeNode) :=
  cs.filterMap fun c => c.link.devicePtr

theorem Child.ptrs_map_forget : ptrs (cs.map forget) = ptrs cs := by
  simp only [ptrs, filterMap_map]
  rfl

/-- Two locked neighbours and their files, as a rebalancing gets them. -/
structure LockedPair {α : Type} (V : FileView α) (s0 s : Store (Disk Block)) (ptr : Option (DevicePointer .treeNode))
    (r : Addr) (d : Bool) (pre : List (Child α)) (x y : Child α) (post : List (Child α))
    (result : Store.ChildrenForRebalance) (fx fy : Files) : Prop where
  root : NodeRoot V s0 s ptr r true true d true (pre ++ x.withLock true :: y.withLock true :: post)
  left : x.link.node = some result.left
  right : y.link.node = some result.right
  leftIndex : result.leftIndex = pre.length
  filesLeft : fx.toList.map (V.mem s.tree.cells) = x.files
  filesRight : fy.toList.map (V.mem s.tree.cells) = y.files
  held : ∀ f ∈ fx.toList ++ fy.toList, V.Held s.tree.nextCell f

namespace LockedPair
variable (P : LockedPair V s0 s ptr r d pre x y post result fx fy)
  (hQ : ∀ s' cs', NodeRoot V s0 s' ptr r false false d true cs' → Child.Valid V.key cs' →
    ptrs cs' = ptrs (pre ++ x :: y :: post) →
    entries cs' = entries (pre ++ x :: y :: post) → Q () s')

include P

theorem len_left : fx.len = x.files.length := by
  rw [← P.filesLeft, length_map]
  rfl

theorem len_right : fy.len = y.files.length := by
  rw [← P.filesRight, length_map]
  rfl

include hQ

/-- The end of a rotation: the separator and the files are written, and all locks are released. -/
theorem rotate (fx' fy' : Files) (max : Option FileId) (hunb : Unbalanced V.key (pre ++ x :: y :: post) i)
    (hdirty : x.dirty = true ∨ y.dirty = true) (hfiles : fx'.toList ++ fy'.toList = fx.toList ++ fy.toList)
    (hvalid : Child.Valid V.key (pre ++ (x.withMax max).withFiles (fx'.toList.map (V.mem s.tree.cells)) ::
      y.withFiles (fy'.toList.map (V.mem s.tree.cells)) :: post)) :
    (do setMax r pre.length max
        assign result.left (.leave (some r) fx' true true)
        assign result.right (.leave (some r) fy' true true)
        unlockNode result.left
        unlockNode result.right
        unlockAll r).wp Q E s := by
  have hheld := hfiles ▸ P.held
  simp only [wp_bind, wp_assign]
  refine P.root.setMax ?_ max fun children H1 => ?_
  · rcases hdirty with hdirty | hdirty
    · exact ⟨x.withLock true, by simp, hdirty⟩
    · exact ⟨y.withLock true, by simp, hdirty⟩
  refine (H1.setPair P.left P.right fx' fy' (fun f hf => hheld f (mem_append_left _ hf))
    fun f hf => hheld f (mem_append_right _ hf)).unlockChild P.left rfl fun s2 H2 =>
    H2.second.unlockChild P.right rfl fun s3 H3 => H3.first.unlockAll_self fun s4 H4 => hQ s4 _ ?_ hvalid ?_ ?_
  · have hx : x.withLock false = x := withLock_eq (hunb.unlocked x (by simp))
    have hy : y.withLock false = y := withLock_eq (hunb.unlocked y (by simp))
    rw [← hx, ← hy]
    exact H4
  · simp [ptrs, withFiles, withMax, filterMap_cons]
  · have hmap := congrArg (List.map (V.mem s.tree.cells)) hfiles
    rw [map_append, map_append, P.filesLeft, P.filesRight] at hmap
    simp only [entries_append, entries_cons, withFiles, withMax]
    rw [← append_assoc _ _ (entries post), hmap, append_assoc]

theorem leaveTakeFromRight (hunb : Unbalanced V.key (pre ++ x :: y :: post) pre.length)
    (hsize : LEAVE_MAX_FILE_COUNT / 2 < y.files.length) (hdirty : x.dirty = true) :
    (leaveTakeFromRight r result (some r) (some r) fx fy true true).wp Q E s := by
  have hxlen : x.files.length + 1 = LEAVE_MAX_FILE_COUNT / 2 := by
    have := hunb.short
    rwa [sizeAt_focus] at this
  -- the right leave has a first file
  rcases hfyl : fy.toList with _ | ⟨f, rest⟩
  · simp [← P.filesRight, hfyl] at hsize
  have hyfiles : y.files = V.mem s.tree.cells f :: rest.map (V.mem s.tree.cells) := by
    rw [← P.filesRight, hfyl, map_cons]
  obtain ⟨fy', hremove, hrest⟩ := exists_remove (v := fy) (i := 0) (x := f) (by simp [hfyl])
  replace hrest : fy'.toList = rest := by rw [hrest, hfyl]; rfl
  obtain ⟨fx', hpush, hpushl⟩ := exists_push (v := fx) f (by
    rw [P.len_left]; simp only [LEAVE_MAX_FILE_COUNT] at hxlen ⊢; omega)
  -- the separator between the two is below that file
  obtain ⟨m, hm⟩ : ∃ m, x.max = some m := by
    rcases hm : x.max with _ | m
    · exact absurd ((chained_cons_none hm).1 hunb.tail).2 (by simp)
    · exact ⟨m, rfl⟩
  have hlt : m < f.id := by
    have := (chained_cons_some hm).1 hunb.tail
    have hk := this.2.2.lt (f := V.mem s.tree.cells f) (by simp [hyfiles])
    rwa [V.key_mem] at hk
  simp only [Store.leaveTakeFromRight, wp_bind, hremove, lift_ok, wp_pure,
    wp_assert, P.leftIndex, P.root.getMax, wp_expect, hpush]
  refine ⟨?_, m, hm, by simpa using hlt, ?_⟩
  · rw [decide_eq_true_eq]
    have hlen := congrArg List.length hyfiles
    simp only [length_cons, length_map] at hlen
    simp only [StaticVec.len, hrest, capacity, LEAVE_MAX_FILE_COUNT] at hsize ⊢
    omega
  have hend := P.rotate (E := E) hQ fx' fy' (some f.id) hunb (.inl hdirty)
    (by rw [hpushl, hrest, hfyl, append_assoc]; rfl) (by
      have hvalid := hunb.takeFromRight hsize hyfiles
      rwa [V.key_mem, ← P.filesLeft, ← map_singleton, ← map_append, ← hpushl, ← hrest] at hvalid)
  simpa only [wp_bind] using hend

theorem leaveTakeFromLeft (hunb : Unbalanced V.key (pre ++ x :: y :: post) (pre.length + 1))
    (hsize : LEAVE_MAX_FILE_COUNT / 2 < x.files.length) (hdirty : y.dirty = true) :
    (leaveTakeFromLeft r result (some r) (some r) fx fy true true).wp Q E s := by
  have hylen : y.files.length + 1 = LEAVE_MAX_FILE_COUNT / 2 := by
    have := hunb.short
    rwa [sizeAt_second] at this
  have hfxlen := P.len_left
  have hfylen := P.len_right
  simp only [LEAVE_MAX_FILE_COUNT] at hylen hsize
  -- the left leave has a last file and one before it
  obtain ⟨init, f, hfxl⟩ : ∃ init f, fx.toList = init ++ [f] := by
    have hne : fx.toList ≠ [] := ne_nil_of_length_pos (by rw [← StaticVec.len]; omega)
    exact ⟨_, _, (dropLast_append_getLast hne).symm⟩
  have hinit : init.length + 1 = fx.len := by rw [StaticVec.len, hfxl, length_append]; rfl
  obtain ⟨z, hz⟩ : ∃ z, init.getLast? = some z := ⟨_, getLast?_eq_some_getLast (ne_nil_of_length_pos (by omega))⟩
  have hxfiles : x.files = init.map (V.mem s.tree.cells) ++ [V.mem s.tree.cells f] := by
    rw [← P.filesLeft, hfxl, map_append]
    rfl
  obtain ⟨fx', hremove, hrest⟩ := exists_remove (v := fx) (i := fx.len - 1) (x := f) (by simp [← hinit, hfxl])
  replace hrest : fx'.toList = init := by
    rw [hrest, hfxl, ← hinit, Nat.add_sub_cancel, eraseIdx_append_cons, append_nil]
  obtain ⟨fy', hins, hinsl⟩ := exists_insert (v := fy) (i := 0) f
    (by rw [hfylen]; simp only [LEAVE_MAX_FILE_COUNT]; omega) (Nat.zero_le _)
  replace hinsl : fy'.toList = f :: fy.toList := hinsl
  obtain ⟨g, hg⟩ : ∃ g, fy.toList.head? = some g :=
    ⟨_, head?_eq_some_head (ne_nil_of_length_pos (by rw [← StaticVec.len]; omega))⟩
  have hlt : f.id < g.id := by
    have hmem : V.mem s.tree.cells g ∈ y.files := P.filesRight ▸ mem_map_of_mem (mem_of_head? hg)
    have := hunb.lt_of_mem_after (f := V.mem s.tree.cells f) (g := V.mem s.tree.cells g)
      (by simp [hxfiles]) (by simp [hmem])
    rwa [V.key_mem, V.key_mem] at this
  simp only [Store.leaveTakeFromLeft, wp_bind, hremove, lift_ok, wp_pure,
    wp_assert, P.leftIndex, hrest, hz, hg, hins, hlt, decide_true, true_and, expect_some]
  refine ⟨?_, ?_⟩
  · rw [decide_eq_true_eq, StaticVec.len, hrest, capacity]
    simp only [LEAVE_MAX_FILE_COUNT]
    omega
  have hend := P.rotate (E := E) hQ fx' fy' (some z.id) hunb (.inr hdirty)
    (by rw [hrest, hinsl, hfxl, append_assoc]; rfl) (by
      have hvalid := hunb.takeFromLeft (z := V.mem s.tree.cells z) hsize hxfiles (by simp [hz])
      rwa [V.key_mem, ← P.filesRight, ← map_cons, ← hinsl, ← hrest] at hvalid)
  simpa only [wp_bind] using hend
end LockedPair

/-! ## Merging neighbours -/

namespace NodeRoot
variable {dc : Bool}

/-- The only child becomes the root. -/
theorem promoteChild (H : NodeRoot V s0 s ptr r true true d dc [c]) (ha : c.link.node = some a)
    (hl : c.locked = false) (hmax : c.max = none)
    (hQ : ∀ s', LeafRoot V s0 s' c.link.devicePtr a false false c.dirty c.files → Q () s') :
    (promoteChild r : Prog (Store (Disk Block)) MemTreeError Unit).wp Q E s := by
  obtain ⟨children, hr, hchildren⟩ := H.node
  have hc : ChildRep V s r c := H.children c (mem_singleton_self c)
  obtain ⟨fs, hfs, hfiles, hheld⟩ := hc.leave ha
  have hne : a ≠ r := H.ne_root hc ha
  rw [map_singleton] at hchildren
  obtain ⟨children', hremove, -⟩ := exists_remove (v := children) (i := 0) (x := c.entry) (by simp [hchildren])
  simp only [Store.promoteChild, wp_bind, Store.wp_getChildren hr, wp_assert, hremove,
    lift_ok, wp_pure, Store.wp_setChildren hr, entry, hmax, ha, expect_some,
    Store.wp_lockNode, Store.wp_deref, Store.wp_assign, Store.wp_unlockNode, Store.wp_getLink_root,
    Store.wp_setLink_root, Store.setNode_nodes_of_ne hne, hfs, Option.some.injEq, exists_eq_left',
    setNode_nodes_self, MemTreeNode.isLocked, MemTreeNode.setLock, MemTreeNode.setParent,
    setNode_root, H.root, wp_dropNode, wp_unlockRoot]
  refine ⟨by simp [StaticVec.len, hchildren], rfl, hl, trivial, H.rootLock, hQ _ ?_⟩
  refine { frame := H.frame.trans (.of_eq rfl rfl rfl rfl), root := ?_, rootLock := rfl, leave := ?_,
           clean := hc.clean ha, fresh := ?_ }
  · rcases hlink : c.link with ⟨node, q⟩
    simp only [hlink] at ha
    simp [setRoot, setNode, setRootLock, ha]
  · refine ⟨fs, ?_, hfiles, hheld⟩
    simp [setNode_nodes, hne]
  · intro x hx
    have hxr : x ≠ r := (H.root_lt_next.trans_le hx).ne'
    have hxa : x ≠ a := ((H.lt_next hc ha).trans_le hx).ne'
    simp [setNode_nodes, hxr, hxa, H.fresh x hx]

/-- **`rebalance_node`** at the root: a single child becomes the root. -/
theorem rebalanceNode (H : NodeRoot V s0 s ptr r true true d dc (pre ++ c :: post))
    (ha : c.link.node = some a) (hl : c.locked = false)
    (hmax : pre.length + post.length = 0 → c.max = none) (fuel : ℕ) [BlockLayout]
    (hnode : 1 ≤ pre.length + post.length → ∀ s', NodeRoot V s0 s' ptr r false false d dc (pre ++ c :: post) → Q () s')
    (hleave : pre.length + post.length = 0 → ∀ s',
      LeafRoot V s0 s' c.link.devicePtr a false false c.dirty c.files → Q () s') :
    (rebalanceNode (fuel + 1) r).wp Q E s := by
  obtain ⟨children, hr, hchildren⟩ := H.node
  have hlen : children.len = pre.length + post.length + 1 := by
    rw [StaticVec.len, hchildren, length_map, length_append, length_cons]
    omega
  simp only [Store.rebalanceNode, wp_bind, Store.wp_deref, hr, Option.some.injEq,
    exists_eq_left', MemTreeNode.getParent, MemTreeNode.len, hlen]
  split_ifs with hone
  · have hzero : pre.length + post.length = 0 := by omega
    obtain rfl : pre = [] := eq_nil_of_length_eq_zero (by omega)
    obtain rfl : post = [] := eq_nil_of_length_eq_zero (by omega)
    exact H.promoteChild ha hl (hmax hzero) (hleave hzero)
  · exact H.unlockAll_self (hnode (by omega))

/-- The merged leave takes the place of both neighbours, which are dropped. -/
theorem replaceMerged {n : Addr} (files : List α) {max : Option FileId}
    (H : NodeRoot V s0 s ptr r true true d true (pre ++ x :: y :: post))
    (hleft : x.link.node = some result.left) (hright : y.link.node = some result.right)
    (hn : LeaveAt V s.tree n (some r) files true false) (hfresh : n ∉ addrs (pre ++ x :: y :: post))
    (hQ : ∀ s', NodeRoot V s0 s' ptr r true true d true (pre ++ Child.fresh n max files :: post) → Q () s') :
    (replaceMerged r result pre.length n max : Prog (Store (Disk Block)) MemTreeError Unit).wp Q E s := by
  obtain ⟨children, hr, hchildren⟩ := H.node
  obtain ⟨children1, hset, hlist1⟩ := exists_setIdx (v := children) (i := pre.length)
    (({ node := some n, devicePtr := none } : MemTreeLink), max)
    (by simp [StaticVec.len, hchildren])
  replace hlist1 : children1.toList = pre.map entry ++ (⟨some n, none⟩, max) :: y.entry :: post.map entry := by
    rw [hlist1, hchildren]
    simp
  obtain ⟨children2, hremove, hlist2⟩ := exists_remove (v := children1)
    (i := pre.length + 1) (x := y.entry) (by simp [hlist1])
  replace hlist2 : children2.toList = pre.map entry ++ (⟨some n, none⟩, max) ::
      post.map entry := by
    have := @eraseIdx_append_cons _ y.entry (post.map entry) (pre.map entry ++ [(⟨some n, none⟩, max)])
    rw [hlist2, hlist1]
    simpa using this
  -- the addresses of the neighbours are no longer in use
  have hnodup := H.distinct
  rw [addrs_append, addrs_cons_some hleft, addrs_cons_some hright] at hnodup hfresh
  obtain ⟨hnl, hnr, hout⟩ : result.left ∉ n :: (addrs pre ++ addrs post) ∧
      result.right ∉ n :: (addrs pre ++ addrs post) ∧ (n :: (addrs pre ++ addrs post)).Nodup := by
    simp only [mem_append, mem_cons, not_or, nodup_append, nodup_cons] at *
    refine ⟨⟨fun h => hfresh.2.1 h.symm, ?_, hnodup.2.1.1.2⟩,
      ⟨fun h => hfresh.2.2.1 h.symm, ?_, hnodup.2.1.2.1⟩, ⟨hfresh.1, hfresh.2.2.2⟩, hnodup.1,
      hnodup.2.1.2.2, fun b hb e he => hnodup.2.2 b hb e (.inr (.inr he))⟩
    · exact fun h => hnodup.2.2 _ h _ (.inl rfl) rfl
    · exact fun h => hnodup.2.2 _ h _ (.inr (.inl rfl)) rfl
  have haddrs : addrs (pre ++ Child.fresh n max files :: post) =
      addrs pre ++ n :: addrs post := by rw [addrs_append, addrs_cons_some (a := n) rfl]
  have hmem : ∀ e, e ∈ pre ∨ e ∈ post → e ∈ pre ++ x :: y :: post := by
    intro e he
    simp only [mem_append, mem_cons]
    tauto
  simp only [Store.replaceMerged, wp_bind, Store.wp_getChildren hr, hset, lift_ok,
    wp_pure, hremove, Store.wp_setChildren hr, Store.wp_dropNode]
  refine hQ _ (NodeRoot.dropOther (NodeRoot.dropOther (H.setSelf ?_ ?_ ?_ (fun _ _ _ => rfl) ?_) ?_ ?_) ?_ ?_)
  · simpa [entry, Child.fresh] using hlist2
  · intro e he
    rcases mem_focus.1 he with rfl | he
    · exact .of_leave rfl hn Bool.noConfusion
    · exact H.children e (hmem e he)
  · rw [haddrs, nodup_middle]
    exact hout
  · intro _ hall
    exact absurd (hall (Child.fresh n max files) (mem_focus.2 (.inl rfl))) (by simp [Child.fresh])
  · rw [haddrs, perm_middle.mem_iff]
    exact hnl
  · exact H.ne_root H.child hleft
  · rw [haddrs, perm_middle.mem_iff]
    exact hnr
  · exact H.ne_root H.second.child hright
end NodeRoot

/-! ## Rebalancing -/

section RebalanceLeave
variable [BlockLayout]

theorem LockedPair.leaveMerge (P : LockedPair V s0 s ptr r d pre x y post result fx fy)
    (hunb : Unbalanced V.key (pre ++ x :: y :: post) i)
    (hi : i = pre.length ∨ i = pre.length + 1)
    (hsize : x.files.length + y.files.length ≤ LEAVE_MAX_FILE_COUNT)
    (hQ : ∀ s' sh', Rep V s0 s' false sh' → sh'.Valid V.key →
      sh'.ptrs.Sublist (ptr.toList ++ ptrs (pre ++ x :: y :: post)) →
      sh'.entries = entries (pre ++ x :: y :: post) → Q () s') :
    (leaveMerge r result (some r) (some r) fx fy true true pre.length).wp Q E s := by
  have hmerged : (fx.extend fy.toList).toList = fx.toList ++ fy.toList := by
    refine take_of_length_le ?_
    rw [← P.filesLeft, ← P.filesRight, length_map, length_map, ← length_append] at hsize
    exact hsize
  have hlt : ∀ e ∈ addrs (pre ++ x.withLock true :: y.withLock true :: post), e < s.tree.nextAddr := by
    intro e he
    obtain ⟨c, hc, hce⟩ := mem_addrs.1 he
    exact P.root.lt_next (P.root.children c hc) hce
  have hnl : result.left < s.tree.nextAddr := P.root.lt_next P.root.child P.left
  have hnr : result.right < s.tree.nextAddr := P.root.lt_next P.root.second.child P.right
  have H2 := (P.root.addNode (.leave (some r) (fx.extend fy.toList) true false)).setPair P.left
    P.right fx StaticVec.new (fun f hf => P.held f (mem_append_left _ hf)) (by simp)
  obtain ⟨nl, hnodel, hlockl, H3⟩ := H2.setChildLock P.left false
  obtain ⟨nr, hnoder, hlockr, H4⟩ := H3.second.setChildLock P.right false
  simp only [Store.leaveMerge, wp_bind, P.leftIndex, P.root.getMax_second, Store.wp_allocNode,
    Store.wp_assign, Store.wp_unlockNode, wp_get]
  refine ⟨nl, hnodel, hlockl, nr, hnoder, hlockr, ?_⟩
  refine H4.first.replaceMerged (n := s.tree.nextAddr) (x.files ++ y.files) P.left P.right ?_ ?_ fun s5 H5 => ?_
  · refine ⟨fx.extend fy.toList, ?_, ?_, ?_⟩
    · simp [setNode_nodes, hnl.ne', hnr.ne']
    · change (fx.extend fy.toList).toList.map (V.mem s.tree.cells) = _
      rw [hmerged, map_append, P.filesLeft, P.filesRight]
    · rw [hmerged]
      exact P.held
  · intro hmem
    refine (hlt s.tree.nextAddr ?_).ne rfl
    simpa [addrs, filterMap_cons, withFiles, withLock] using hmem
  refine H5.rebalanceNode rfl rfl (fun hzero => ?_) _ (fun hone s' H' => ?_) fun hzero s' H' => ?_
  · -- the last of the children has no separator
    obtain rfl : post = [] := eq_nil_of_length_eq_zero (by omega)
    rcases hm : x.max with _ | m
    · exact absurd ((chained_cons_none hm).1 hunb.tail).2 (by simp)
    · have hlast := ((chained_cons_some hm).1 hunb.tail).2.2
      rcases hym : y.max with _ | m'
      · exact hym
      · exact ((chained_cons_some hym).1 hlast).2.2.elim
  · refine hQ s' (.node ⟨some r, ptr⟩ _ d true) H' (hunb.merge hi hsize _ hone) ?_ ?_
    · refine List.Sublist.append (List.Sublist.refl _) ?_
      simp only [ptrs, filterMap_append]
      refine List.Sublist.append (List.Sublist.refl _) ?_
      -- the merged leave is on the device nowhere yet
      have hsub : (ptrs post).Sublist (ptrs (x :: y :: post)) :=
        List.Sublist.filterMap _ ((sublist_cons_self y post).trans (sublist_cons_self x _))
      exact hsub
    · simp [Shape.entries, Child.fresh]
  · obtain rfl : pre = [] := eq_nil_of_length_eq_zero (by omega)
    obtain rfl : post = [] := eq_nil_of_length_eq_zero (by omega)
    refine hQ s' (.leave ⟨some s.tree.nextAddr, none⟩ _ true) H' ⟨hunb.sorted_pair, by simpa [Child.fresh] using hsize⟩ ?_ ?_
    · simp [Shape.ptrs]
    · simp [Shape.entries, Child.fresh]

/-- **`rebalance_leave`** keeps the files and makes the tree valid again. -/
theorem NodeRoot.rebalanceLeave (H : NodeRoot V s0 s ptr r true true d true (pre ++ c :: post))
    (ha : c.link.node = some a) (hl : c.locked = true) (hdirty : c.dirty = true)
    (hunb : Unbalanced V.key (pre ++ c.withLock false :: post) pre.length)
    (hQ : ∀ s' sh', Rep V s0 s' false sh' → sh'.Valid V.key → sh'.ptrs.Sublist (ptr.toList ++ ptrs (pre ++ c :: post)) →
      sh'.entries = entries (pre ++ c :: post) → Q () s') :
    (rebalanceLeave a).wp Q E s := by
  obtain ⟨fs, hfs, -⟩ := H.child.leave ha
  simp only [Store.rebalanceLeave, wp_bind, Store.wp_deref, hfs, Option.some.injEq,
    exists_eq_left', MemTreeNode.getParent, expect_some, wp_pure]
  refine H.unlockChild ha hl fun s1 H1 => ?_
  have hshort : c.files.length < LEAVE_MAX_FILE_COUNT / 2 := by
    have := hunb.short
    rw [sizeAt_focus] at this
    exact Nat.lt_of_succ_le this.le
  refine H1.childrenForRebalance ha hunb.unlocked hunb.two_le hshort fun result s2 pre' x y post' hp H2 => ?_
  have hunb' := hunb.reloaded hp.same
  have hmap := Child.Reloaded.map_forget hp.same
  have hentries : entries (pre' ++ x :: y :: post') = entries (pre ++ c :: post) := by
    rw [← entries_map_forget, hmap, entries_map_forget]
    simp [withLock]
  have hptrs : ptrs (pre' ++ x :: y :: post') = ptrs (pre ++ c :: post) := by
    rw [← ptrs_map_forget, hmap, ptrs_map_forget]
    simp [ptrs, withLock, filterMap_cons]
  obtain ⟨fx, hfx, hfilesx, hheldx⟩ := H2.child.leave hp.left
  obtain ⟨fy, hfy, hfilesy, hheldy⟩ := H2.second.child.leave hp.right
  simp only [hfx, hfy, Option.some.injEq, exists_eq_left']
  -- the unbalanced leave is one of the two
  have hxd : pre.length = pre'.length → x.dirty = true := by
    intro hlen
    have := (append_inj (by simpa using hmap) (by simp [hlen])).2
    simp only [List.cons.injEq] at this
    exact (congrArg dirty this.1).trans hdirty
  have hyd : pre.length = pre'.length + 1 → y.dirty = true := by
    intro hlen
    have hmap' : (pre' ++ [x]).map forget ++ (y :: post').map forget =
        pre.map forget ++ (c.withLock false :: post).map forget := by simpa using hmap
    have := (append_inj hmap' (by simp [hlen])).2
    simp only [map_cons, List.cons.injEq] at this
    exact (congrArg dirty this.1).trans hdirty
  have hmode := hp.mode
  have hdone : ∀ s' cs', NodeRoot V s0 s' ptr r false false d true cs' → Child.Valid V.key cs' →
      ptrs cs' = ptrs (pre' ++ x :: y :: post') →
      entries cs' = entries (pre' ++ x :: y :: post') → Q () s' := by
    intro s' cs' H' hv' hp' he'
    refine hQ s' (.node ⟨some r, ptr⟩ cs' d true) H' hv' ?_ (he'.trans hentries)
    exact List.Sublist.append (List.Sublist.refl _) (hp'.trans hptrs ▸ List.Sublist.refl _)
  have P : LockedPair V s0 s2 ptr r d pre' x y post' result fx fy :=
    ⟨H2, hp.left, hp.right, hp.leftIndex, hfilesx, hfilesy, forall_mem_append.2 ⟨hheldx, hheldy⟩⟩
  rcases hm : result.mode with _ | _ | k
  · rw [hm] at hmode
    rw [hmode.1] at hunb'
    exact P.leaveTakeFromRight hdone hunb' hmode.2 (hxd hmode.1)
  · rw [hm] at hmode
    rw [hmode.1] at hunb'
    exact P.leaveTakeFromLeft hdone hunb' hmode.2 (hyd hmode.1)
  · rw [hm] at hmode
    obtain ⟨rfl, hi, hsize⟩ := hmode
    exact P.leaveMerge hunb' hi hsize fun s' sh' H' hv' hp' he' => hQ s' sh' H' hv' (hptrs ▸ hp') (he'.trans hentries)
end RebalanceLeave

/-! ## Deleting -/

section Delete
variable [BlockLayout] {files : List α} {id : FileId} {Q : FileNode → Store (Disk Block) → Prop}

/-- Deleting from a leave that is the root. -/
theorem LeafRoot.deleteFrom (H : LeafRoot V s s ptr a true true d files) (hs : Sorted V.key files)
    (hmax : files.length ≤ LEAVE_MAX_FILE_COUNT)
    (hsome : ∀ f s' files', LeafRoot V s s' ptr a false false true files' → Sorted V.key files' →
      files'.length ≤ LEAVE_MAX_FILE_COUNT → f.id = id → V.Held s.tree.nextCell f →
      Inserted V.key (V.mem s.tree.cells f) files' files → Q f s')
    (hnone : (∀ f ∈ files, V.key f ≠ id) → ∀ s', LeafRoot V s s' ptr a false false d files →
      E (.fileDoesNotExist id) s') :
    (deleteFrom a id).wp Q E s := by
  obtain ⟨fs, hfs, rfl, hheld⟩ := H.leave
  simp only [deleteFrom, wp_bind, wp_deref, hfs, Option.some.injEq,
    exists_eq_left']
  rcases hidx : fs.toList.findIdx? (fun f => f.id = id) with _ | i
  · simp only [hidx, wp_bind, wp_throw]
    refine H.unlockAll fun s' H' => hnone ?_ s' H'
    simpa [V.key_mem] using findIdx?_eq_none_iff.1 hidx
  · obtain ⟨l1, f, l2, rfl, hl, hf⟩ := split_findIdx? hidx
    obtain ⟨fs', hremove, hlist⟩ := exists_remove (v := fs) (i := l1.length) (x := f) (by simp [hl])
    rw [hl, eraseIdx_append_cons] at hlist
    have hmem : ∀ g ∈ fs'.toList, g ∈ fs.toList := by
      rw [hlist, hl]
      intro g hg
      exact mem_focus.2 (.inr (mem_append.1 hg))
    simp only [hl, map_append, map_cons] at hs hmax hsome
    simp only [hidx, wp_bind, hremove, lift_ok, wp_pure, wp_assign, Option.isNone_none, Bool.or_true, if_true]
    refine LeafRoot.unlockAll (H.setSelf rfl (fun g hg => hheld g (hmem g hg)) Bool.noConfusion) fun s' H' => ?_
    rw [hlist, map_append] at H'
    refine hsome f s' _ H' hs.erase ?_ (by simpa using hf) (hheld f (by simp [hl])) hs.inserted
    simp only [length_append, length_cons, length_map] at hmax ⊢
    omega

/-- Deleting from the leave of a child. -/
theorem NodeRoot.deleteFrom (H : NodeRoot V s s ptr r true true d true (pre ++ (c.placed a).withLock true :: post))
    (hv : Child.Valid V.key cs) (hroute : Child.Route id cs pre c post)
    (hsome : ∀ f s' sh', Rep V s s' false sh' → sh'.Valid V.key →
      sh'.ptrs.Sublist (ptr.toList ++ ptrs cs) → f.id = id → V.Held s.tree.nextCell f →
      Inserted V.key (V.mem s.tree.cells f) sh'.entries (entries cs) → Q f s')
    (hnone : (∀ f ∈ c.files, V.key f ≠ id) → ∀ s', NodeRoot V s s' ptr r false false d true
      (pre ++ (c.placed a).withLock false :: post) → E (.fileDoesNotExist id) s') :
    (deleteFrom a id).wp Q E s := by
  obtain ⟨fs, hfs, hfiles, hheld⟩ := H.child.leave rfl
  replace hfiles : fs.toList.map (V.mem s.tree.cells) = c.files := hfiles
  have hpre := hroute.ne_before hv
  have hpost := hroute.ne_after hv
  obtain ⟨rfl, hfloor, hmax⟩ := hroute
  have hfits := hv.fits c (mem_focus.2 (.inl rfl))
  simp only [Store.deleteFrom, wp_bind, Store.wp_deref, hfs, Option.some.injEq,
    exists_eq_left']
  rcases hidx : fs.toList.findIdx? (fun f => f.id = id) with _ | i
  · simp only [hidx, wp_bind, wp_throw]
    refine H.unlockAll_child rfl rfl fun s' H' => hnone ?_ s' H'
    rw [← hfiles]
    simpa [V.key_mem] using findIdx?_eq_none_iff.1 hidx
  obtain ⟨l1, f, l2, rfl, hl, hf⟩ := split_findIdx? hidx
  replace hf : f.id = id := by simpa using hf
  obtain ⟨fs', hremove, hlist⟩ := exists_remove (v := fs) (i := l1.length) (x := f) (by simp [hl])
  rw [hl, eraseIdx_append_cons] at hlist
  have hheld' : ∀ g ∈ fs'.toList, V.Held s.tree.nextCell g := by
    intro g hg
    rw [hlist] at hg
    exact hheld g (hl ▸ mem_focus.2 (.inr (mem_append.1 hg)))
  have hcfiles : c.files = l1.map (V.mem s.tree.cells) ++ V.mem s.tree.cells f ::
      l2.map (V.mem s.tree.cells) := by rw [← hfiles, hl]; simp
  have hfiles' : fs'.toList.map (V.mem s.tree.cells) =
      l1.map (V.mem s.tree.cells) ++ l2.map (V.mem s.tree.cells) := by rw [hlist]; simp
  have hsorted := hcfiles ▸ hfits.sorted
  have hlen : c.files.length = fs'.len + 1 := by
    rw [StaticVec.len, hlist, hcfiles]
    simp only [length_append, length_cons, length_map]
    omega
  have hrange : ∀ g ∈ fs'.toList.map (V.mem s.tree.cells),
      floor 0 pre < (V.key g).get ∧ V.key g ≤ c.max.getD FileId.MAX := by
    intro g hg
    rw [hfiles'] at hg
    exact hv.tail.1 g (hcfiles ▸ mem_focus.2 (.inr (mem_append.1 hg)))
  -- the files of the tree, without the deleted one
  have hins : Inserted V.key (V.mem s.tree.cells f)
      (entries pre ++ (fs'.toList.map (V.mem s.tree.cells) ++ entries post))
      (entries (pre ++ c :: post)) := by
    rw [entries_append, entries_cons, hcfiles, hfiles']
    have hkey : V.key (V.mem s.tree.cells f) = id := (V.key_mem ..).trans hf
    exact hsorted.inserted.context (hkey ▸ hpre) (hkey ▸ hpost)
  have hptrs : ∀ files, ptrs (pre ++ ((c.placed a).withLock true).withFiles files :: post) =
      ptrs (pre ++ c :: post) := by
    intro files
    simp [ptrs, withLock, placed, withFiles, filterMap_cons]
  have H' := H.setChild (((c.placed a).withLock true).withFiles (fs'.toList.map _))
    rfl rfl rfl rfl hheld' (fun _ => rfl) Bool.noConfusion
  simp only [hidx, wp_bind, hremove, lift_ok, wp_pure, wp_assign, Option.isNone_some, Bool.or_false]
  split_ifs with hhalf
  · replace hhalf : LEAVE_MAX_FILE_COUNT / 2 ≤ fs'.len := by simpa [capacity] using hhalf
    simp only [wp_bind, wp_pure]
    refine H'.unlockAll_child rfl rfl fun s' H'' => ?_
    refine hsome f s' (.node ⟨some r, ptr⟩ _ d true) H'' ?_ ?_ hf (hheld f (by simp [hl])) ?_
    · refine hv.setFiles rfl ⟨?_, ?_, ?_⟩ rfl hrange
      · simp only [withLock, withFiles, hfiles']
        exact hsorted.erase
      · simpa [withLock, withFiles, StaticVec.len] using hhalf
      · simpa [withLock, withFiles] using fs'.length_le
    · rw [← hptrs (fs'.toList.map (V.mem s.tree.cells))]
      simp [Shape.ptrs, ptrs, withLock, filterMap_cons]
    · simpa [Shape.entries, withLock, withFiles] using hins
  · replace hhalf : ¬ LEAVE_MAX_FILE_COUNT / 2 ≤ fs'.len := by simpa [capacity] using hhalf
    have hsize : fs'.len + 1 = LEAVE_MAX_FILE_COUNT / 2 := by
      have := hfits.half
      omega
    simp only [wp_bind, wp_pure]
    refine H'.rebalanceLeave rfl rfl rfl (.of_valid hv rfl rfl ?_ ?_ hrange) fun s' sh' H'' hv' hp' he' => ?_
    · simp only [withLock, withFiles, hfiles']
      exact hsorted.erase
    · simpa [withLock, withFiles, StaticVec.len] using hsize
    · refine hsome f s' sh' H'' hv' (hptrs _ ▸ hp') hf (hheld f (by simp [hl])) ?_
      rw [he']
      simpa [withLock, withFiles] using hins

/-- **`delete`** takes the file out of the tree and returns it, or fails and changes nothing. -/
theorem Rep.delete {sh : Shape α} (H : Rep V s s false sh) (hv : sh.Valid V.key) (id : FileId) : (delete id).wp
      (fun file s' => ∃ sh', Rep V s s' false sh' ∧ sh'.Valid V.key ∧ sh'.ptrs.Sublist sh.ptrs ∧
        file.id = id ∧ Inserted V.key (V.mem s'.tree.cells file) sh'.entries sh.entries)
      (fun e s' => e = .fileDoesNotExist id ∧ lookup V.key id sh.entries = none ∧
        ∃ sh', Rep V s s' false sh' ∧ sh'.Valid V.key ∧ sh'.ptrs = sh.ptrs ∧ sh'.entries = sh.entries) s := by
  simp only [Store.delete, wp_bind, wp_mapErr]
  refine H.findLeave hv true ?_ ?_
  · rintro root files d a s1 rfl H1
    refine H1.rebase.deleteFrom hv.1 hv.2 ?_ ?_
    · intro f s' files' H' hs' hmax' hf hheld hins
      refine ⟨.leave ⟨some a, root.devicePtr⟩ files' true, H'.after H1.frame, ⟨hs', hmax'⟩, List.Sublist.refl _, hf, ?_⟩
      rw [H'.frame.mem_eq hheld]
      exact hins
    · intro hne s' H'
      exact ⟨rfl, lookup_eq_none.2 hne, .leave ⟨some a, root.devicePtr⟩ files d, H'.after H1.frame, hv, rfl, rfl⟩
  · rintro root cs d dc r a s1 pre c post rfl hroute H1
    rw [Bool.or_true] at H1
    have hlookup := hroute.lookup_eq hv
    refine H1.rebase.deleteFrom hv hroute ?_ ?_
    · intro f s' sh' H' hv' hptrs hf hheld hins
      refine ⟨sh', H'.after H1.frame, hv', hptrs, hf, ?_⟩
      rw [H'.frame.mem_eq hheld]
      exact hins
    · intro hne s' H'
      obtain rfl := hroute.eq
      have hfits := hv.fits c (mem_focus.2 (.inl rfl))
      refine ⟨rfl, hlookup.trans (lookup_eq_none.2 hne), .node ⟨some r, root.devicePtr⟩ _ d true,
        H'.after H1.frame, ?_, ?_, ?_⟩
      · exact Child.Valid.setFiles hv rfl ⟨hfits.sorted, hfits.half, hfits.le_max⟩ rfl hv.tail.1
      · simp [Shape.ptrs, placed, withLock, filterMap_cons]
      · simp [Shape.entries, placed, withLock]
end Delete
end WasabiOS
