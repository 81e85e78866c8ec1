import WasabiOS.Wfs.MemTree.Walk

/-!
# Wfs/MemTree/Insert — inserting into trees of one and two levels

`insert` puts the file into its place in the leave.  A full leave is split: at the root the two halves
get a new root (`LeafRoot.insertSplitAtRoot`), below it the right half goes into the parent as the
next child (`NodeRoot.insertSplit`), which needs room for it.
-/

open Machinery Prog Machinery.Keyed
namespace WasabiOS
open Store Child StaticVec List
variable {α : Type} {V : FileView α} {s0 s : Store (Disk Block)} {a r : Addr} {ptr : Option (DevicePointer .treeNode)}
  {right : List α} {Q : Unit → Store (Disk Block) → Prop} {E : MemTreeError → Store (Disk Block) → Prop} {d : Bool}
  {fs : Files} {l1 l2 : List FileNode} {R : Files} {c : Child α}

/-! ## The files of one leave -/

/-- Either a file with the id is there, or there is a place for it. -/
theorem Files.place (hs : Sorted FileNode.id fs.toList) (id : FileId) :
    (∃ l1 f l2, fs.toList = l1 ++ f :: l2 ∧ f.id = id ∧ fs.toList.findIdx? (fun f => f.id = id) = some l1.length) ∨
    ((∀ f ∈ fs.toList, f.id ≠ id) ∧ fs.toList.findIdx? (fun f => f.id = id) = none ∧ ∃ l1 l2, fs.toList = l1 ++ l2 ∧
        (fs.toList.findIdx? fun f => id < f.id).getD fs.len = l1.length ∧
        (∀ f ∈ l1, f.id < id) ∧ ∀ f ∈ l2, id < f.id) := by
  rcases hidx : fs.toList.findIdx? (fun f => f.id = id) with _ | i
  · have hne : ∀ f ∈ fs.toList, f.id ≠ id := by simpa using findIdx?_eq_none_iff.1 hidx
    exact .inr ⟨hne, hidx, hs.insert_place hne⟩
  · obtain ⟨l1, f, l2, rfl, hl, hf⟩ := split_findIdx? hidx
    exact .inl ⟨l1, f, l2, hl, by simpa using hf, hidx⟩

/-- A full leave splits into two halves, in order, with the new file in its place. -/
theorem Store.splitFiles_spec (file : FileNode) (hfs : fs.toList = l1 ++ l2) (hfull : fs.len = LEAVE_MAX_FILE_COUNT) :
    ∃ left right : Files, splitFiles fs l1.length file = .ok (left, right) ∧
      left.toList ++ right.toList = l1 ++ file :: l2 ∧
      LEAVE_MAX_FILE_COUNT / 2 ≤ left.len ∧ LEAVE_MAX_FILE_COUNT / 2 ≤ right.len := by
  have hlen : l1.length + l2.length = 20 := by
    rw [StaticVec.len, hfs, length_append] at hfull
    exact hfull
  obtain ⟨left, right, hdrain, hleft, hright⟩ := exists_drain (v := fs) (k := 10) (by rw [hfull]; decide)
  have hll : left.len = 10 := by rw [StaticVec.len, hleft, hfs, length_take, length_append]; omega
  have hrl : right.len = 10 := by rw [StaticVec.len, hright, hfs, length_drop, length_append]; omega
  have hsplit : splitFiles fs l1.length file =
      if l1.length ≤ 10 then do return (← left.insert l1.length file, right)
      else do return (left, ← right.insert (l1.length - 10) file) := by
    have hcap : fs.capacity / 2 = 10 := by simp [capacity, LEAVE_MAX_FILE_COUNT]
    simp only [splitFiles, hcap, hdrain]
    exact if_pos (hll.trans hrl.symm)
  rw [hsplit]
  split_ifs with hpos
  · -- the file goes to the left half
    obtain ⟨left', hins, hlist⟩ := exists_insert (v := left) (i := l1.length) file (by rw [hll]; decide) (by omega)
    have hl : left.toList = l1 ++ l2.take (10 - l1.length) := by rw [hleft, hfs, take_append, take_of_length_le hpos]
    have hr : right.toList = l2.drop (10 - l1.length) := by
      rw [hright, hfs, drop_append, drop_of_length_le hpos, nil_append]
    refine ⟨left', right, by rw [hins]; rfl, ?_, ?_, hrl.ge⟩
    · rw [hlist, hl, hr, insertIdx_append_length, append_assoc, cons_append, take_append_drop]
    · rw [StaticVec.len, hlist, length_insertIdx_of_le_length (hpos.trans hll.ge)]
      exact hll.ge.trans (Nat.le_succ _)
  · obtain ⟨right', hins, hlist⟩ := exists_insert (v := right) (i := l1.length - 10) file
      (by rw [hrl]; decide) (by omega)
    have hl : left.toList = l1.take 10 := by rw [hleft, hfs, take_append_of_le_length (by omega)]
    have hr : right.toList = l1.drop 10 ++ l2 := by rw [hright, hfs, drop_append_of_le_length (by omega)]
    have hdrop : l1.length - 10 = (l1.drop 10).length := length_drop.symm
    refine ⟨left, right', by rw [hins]; rfl, ?_, hll.ge, ?_⟩
    · rw [hlist, hl, hr, hdrop, insertIdx_append_length, ← append_assoc, take_append_drop]
    · rw [StaticVec.len, hlist, length_insertIdx_of_le_length (by rw [← StaticVec.len]; omega)]
      exact hrl.ge.trans (Nat.le_succ _)

/-! ## Splitting the root -/

/-- A child that was just made. -/
def Child.fresh {α : Type} (a : Addr) (max : Option FileId) (files : List α) : Child α where
  link := { node := some a, devicePtr := none }
  max := max
  files := files
  dirty := true
  locked := false

variable {left : List α}

/-- The two children of a root that was just made. -/
def Children.halves (old : Addr) (splitId : FileId) (new : Addr) : Children :=
  collect [({ node := some old, devicePtr := none }, some splitId), ({ node := some new, devicePtr := none }, none)]

/-- The old root and the node split off it get a new root: the node goes to the next free address and
the root to the one after it. -/
theorem Store.insertSplitAtRoot_spec {n new : MemTreeNode} (ha : s.tree.nodes a = some n)
    (hparent : n.getParent = none) (hlocked : n.isLocked = true) (hroot : s.tree.root.node = some a)
    (hrootLock : s.tree.rootLock = true) (hlt : a < s.tree.nextAddr) (splitId : FileId)
    (hQ : ∀ s', Frame s s' → s'.tree.cells = s.tree.cells → s'.tree.nextCell = s.tree.nextCell →
      s'.tree.root = { node := some (s.tree.nextAddr + 1), devicePtr := none } →
      s'.tree.rootLock = false → s'.tree.nextAddr = s.tree.nextAddr + 2 →
      (∀ x, s'.tree.nodes x =
        if x = s.tree.nextAddr then some (new.setParent (some (s.tree.nextAddr + 1)))
        else if x = a then some ((n.setLock false).setParent (some (s.tree.nextAddr + 1)))
        else if x = s.tree.nextAddr + 1 then
          some (.node none (Children.halves a splitId s.tree.nextAddr) true true false)
        else s.tree.nodes x) → Q () s') :
    (insertSplitAtRoot a splitId new).wp Q E s := by
  have hne : a ≠ s.tree.nextAddr := hlt.ne
  have hne' : a ≠ s.tree.nextAddr + 1 := (hlt.trans (lt_add_one _)).ne
  simp only [insertSplitAtRoot, wp_bind, wp_deref, wp_assert, wp_unlockNode, wp_getLink_root, wp_allocNode, wp_assign,
    wp_setLink_root, wp_unlockRoot, wp_expect, ha]
  refine ⟨n, rfl, by rw [hparent]; rfl, n, rfl, hlocked, a, hroot, by simp, ?_⟩
  refine ⟨n.setLock false, ?_, new, ?_, hrootLock, hQ _ ?_ rfl rfl rfl rfl rfl fun x => ?_⟩
  · simp [addNode_nodes, hne, hne']
  · simp [addNode_nodes, setNode_nodes, hne.symm]
  · exact .of_eq rfl rfl rfl rfl
  · simp only [setRootLock_nodes, setRoot_nodes, setNode_nodes, addNode_nodes, addNode_nextAddr, setNode_nextAddr]
    split_ifs <;> rfl

/-- The two halves of a root leave become the children of a new root. -/
theorem LeafRoot.insertSplitAtRoot (H : LeafRoot V s0 s ptr a true true true left)
    (hR : R.toList.map (V.mem s.tree.cells) = right)
    (hheld : ∀ f ∈ R.toList, V.Held s.tree.nextCell f) (splitId : FileId)
    (hQ : ∀ s' y b, NodeRoot V s0 s' none y false false true true
      [Child.fresh a (some splitId) left, Child.fresh b none right] → Q () s') :
    (insertSplitAtRoot a splitId (.leave none R true false)).wp Q E s := by
  obtain ⟨L, hL, hleft, hheldL⟩ := H.leave
  have hne : a ≠ s.tree.nextAddr := H.lt_next.ne
  have hne' : s.tree.nextAddr + 1 ≠ a := (H.lt_next.trans (lt_add_one _)).ne'
  refine insertSplitAtRoot_spec hL rfl rfl (by rw [H.root]) H.rootLock H.lt_next splitId
    fun s' hframe hcells hcell hroot hlock hnext hnodes => hQ s' (s.tree.nextAddr + 1) s.tree.nextAddr ?_
  refine { frame := H.frame.trans hframe, root := hroot, rootLock := hlock, node := ?_,
           children := ?_, distinct := ?_, marked := fun _ _ _ => rfl, clean := Bool.noConfusion, fresh := ?_ }
  · exact ⟨Children.halves a splitId s.tree.nextAddr, by simp [hnodes, hne'], rfl⟩
  · intro c hc
    rcases mem_cons.1 hc with rfl | hc
    · refine .of_leave rfl ⟨L, ?_, by rw [hcells]; exact hleft, by rw [hcell]; exact hheldL⟩ Bool.noConfusion
      simp [Child.fresh, hnodes, hne]
    · obtain rfl := mem_singleton.1 hc
      refine .of_leave rfl ⟨R, ?_, by rw [hcells]; exact hR, by rw [hcell]; exact hheld⟩ Bool.noConfusion
      simp [Child.fresh, hnodes]
  · simpa [addrs, Child.fresh] using hne
  · intro x hx
    rw [hnext] at hx
    have hlt : s.tree.nextAddr + 1 < x := hx
    have hlt' : s.tree.nextAddr < x := (lt_add_one _).trans hlt
    have hxa : x ≠ a := (H.lt_next.trans hlt').ne'
    rw [hnodes, if_neg hlt'.ne', if_neg hxa, if_neg hlt.ne', H.fresh x hlt'.le]

/-! ## Splitting below the root -/

/-- The child with another separator. -/
def Child.withMax {α : Type} (c : Child α) (max : Option FileId) : Child α := { c with max := max }

theorem ChildRep.withMax (h : ChildRep V s r c) (max : Option FileId) : ChildRep V s r (c.withMax max) := h

theorem Children.findIdx?_node {pre post : List (Child α)}
    (hdistinct : (addrs (pre ++ c :: post)).Nodup) (ha : c.link.node = some a) :
    ((pre ++ c :: post).map entry).findIdx? (fun e => e.1.node = some a) =
      some pre.length := by
  rw [map_append, map_cons, findIdx?_append_cons, length_map]
  · exact decide_eq_true ha
  · intro e he
    obtain ⟨c', hc', rfl⟩ := mem_map.1 he
    exact decide_eq_false (ne_of_nodup hdistinct ha (.inl hc'))

variable {c : Child α} {pre post : List (Child α)}

/-- The right half of a leave becomes the next child of a parent with room. -/
theorem NodeRoot.insertSplit (H : NodeRoot V s0 s ptr r true true d true (pre ++ c :: post))
    (ha : c.link.node = some a) (hR : R.toList.map (V.mem s.tree.cells) = right)
    (hheld : ∀ f ∈ R.toList, V.Held s.tree.nextCell f) (oldMax newMax : FileId)
    (hroom : (pre ++ c :: post).length < NODE_MAX_CHILD_COUNT) (fuel : ℕ)
    (hQ : ∀ s' b, NodeRoot V s0 s' ptr r false false true true (pre ++ c.withMax (some oldMax) ::
      Child.fresh b (if post = [] then none else some newMax) right :: post) → Q () s') :
    (insertSplit (fuel + 1) r a oldMax (.leave (some r) R true false) newMax).wp Q E s := by
  obtain ⟨children, hr, hchildren⟩ := H.node
  have hlen : children.len = (pre ++ c :: post).length := by rw [StaticVec.len, hchildren, length_map]
  have hidx : children.toList.findIdx? (fun e => e.1.node = some a) = some pre.length := by
    rw [hchildren]
    exact Children.findIdx?_node H.distinct ha
  have hold : children.toList[pre.length]? = some c.entry := by simp [hchildren]
  obtain ⟨children1, hset, hlist1⟩ := exists_setIdx (v := children) (i := pre.length)
    (c.link, some oldMax) (by rw [hlen]; simp)
  have hlen1 : children1.len = children.len := by rw [StaticVec.len, hlist1, length_set, StaticVec.len]
  have hmax : (if pre.length + 1 ≠ children1.len then some newMax else none) =
      if post = [] then none else some newMax := by
    rw [hlen1, hlen]
    rcases post with _ | ⟨e, post⟩
    · simp
    · simp
  obtain ⟨children2, hins, hlist2⟩ := exists_insert (v := children1)
    (i := pre.length + 1) (({ node := some s.tree.nextAddr, devicePtr := none } : MemTreeLink),
      if post = [] then none else some newMax) (by rw [hlen1, hlen]; exact hroom)
      (by rw [hlen1, hlen]; simp)
  simp only [Store.insertSplit, wp_bind, Store.wp_deref, hr, Option.some.injEq,
    exists_eq_left', Store.wp_allocNode, hidx, expect_some, wp_pure, wp_assert]
  refine ⟨by rw [hlen]; simp, ?_⟩
  rw [if_pos (by simpa [isNotFull, hlen] using hroom)]
  simp only [wp_bind, hold, expect_some, wp_pure, entry, hset, hmax, hins, lift_ok, wp_assign]
  have H1 := H.addNode (.leave (some r) R true false)
  refine NodeRoot.unlockAll_self (H1.setSelf ?_ ?_ ?_ (fun _ _ _ => rfl) Bool.noConfusion)
    fun s' H' => hQ s' s.tree.nextAddr H'
  · rw [hlist2, hlist1, hchildren]
    have hset' : ((pre ++ c :: post).map entry).set pre.length (c.link, some oldMax) =
        pre.map entry ++ (c.link, some oldMax) :: post.map entry := by simp
    rw [hset', ← length_map entry, insertIdx_append_cons]
    simp [entry, Child.fresh, withMax]
  · intro e he
    rcases mem_focus.1 he with rfl | he
    · exact H1.child.withMax _
    · rcases he with he | he
      · exact H1.children e (mem_focus.2 (.inr (.inl he)))
      · rcases mem_cons.1 he with rfl | he
        · exact .of_leave rfl ⟨R, addNode_nodes_self, hR, hheld⟩ Bool.noConfusion
        · exact H1.children e (mem_focus.2 (.inr (.inr he)))
  · have hfresh : s.tree.nextAddr ∉ addrs (pre ++ c :: post) := fun hmem => by
      obtain ⟨e, he, hea⟩ := mem_addrs.1 hmem
      exact (H.lt_next (H.children e he) hea).ne rfl
    have hnodup := H.distinct
    rw [addrs_append, addrs_cons_some ha] at hnodup hfresh
    rw [addrs_append, addrs_cons_some (c := c.withMax (some oldMax)) ha, addrs_cons_some (a := s.tree.nextAddr) rfl]
    have hperm : (addrs pre ++ a :: s.tree.nextAddr :: addrs post).Perm
        (s.tree.nextAddr :: (addrs pre ++ a :: addrs post)) := by
      simpa using @List.perm_middle _ s.tree.nextAddr (addrs pre ++ [a]) (addrs post)
    exact hperm.nodup_iff.2 (nodup_cons.2 ⟨hfresh, hnodup⟩)

/-! ## Inserting -/

/-- The sorted files of a leave, as file nodes. -/
theorem FileView.sorted_of_map {fs : List FileNode} {cells : CellId → Option BlockListAccess} :
    Sorted V.key (fs.map (V.mem cells)) ↔ Sorted FileNode.id fs := by
  simp only [Sorted, pairwise_map, V.key_mem]

/-- The child after its files were changed. -/
def Child.withFiles {α : Type} (c : Child α) (files : List α) : Child α := { c with files := files, dirty := true }

/-- `new` is `fs` with the file in its place. -/
structure Edited {α : Type} (V : FileView α) (s : Store (Disk Block)) (file : FileNode)
    (fs new : List FileNode) : Prop where
  sorted : Sorted FileNode.id new
  held : ∀ f ∈ new, V.Held s.tree.nextCell f
  subset : ∀ f ∈ new, f = file ∨ f ∈ fs
  upserted : Upserted V.key (V.mem s.tree.cells file) (fs.map (V.mem s.tree.cells)) (new.map (V.mem s.tree.cells))

section Insert
variable {files : List α} {file : FileNode} {dc : Bool}

theorem Edited.replace {f : FileNode} (hs : Sorted FileNode.id (l1 ++ f :: l2)) (hf : f.id = file.id)
    (hheld : V.Held s.tree.nextCell file)
    (hfs : ∀ g ∈ l1 ++ f :: l2, V.Held s.tree.nextCell g) :
    Edited V s file (l1 ++ f :: l2) (l1 ++ file :: l2) where
  sorted := hs.replace hf
  held g hg := by
    rcases mem_focus.1 hg with rfl | hg
    · exact hheld
    · exact hfs g (mem_focus.2 (.inr hg))
  subset g hg := (mem_focus.1 hg).imp_right fun hg => mem_focus.2 (.inr hg)
  upserted := by
    simp only [map_append, map_cons]
    refine Sorted.upserted ?_ (by rw [V.key_mem, V.key_mem, hf])
    simpa only [map_append, map_cons] using V.sorted_of_map.2 hs

theorem Edited.insert (hs : Sorted FileNode.id (l1 ++ l2))
    (hlt : ∀ f ∈ l1, f.id < file.id) (hgt : ∀ f ∈ l2, file.id < f.id)
    (hheld : V.Held s.tree.nextCell file) (hfs : ∀ g ∈ l1 ++ l2, V.Held s.tree.nextCell g) :
    Edited V s file (l1 ++ l2) (l1 ++ file :: l2) where
  sorted := hs.insert hlt hgt
  held g hg := by
    rcases mem_focus.1 hg with rfl | hg
    · exact hheld
    · exact hfs g (mem_append.2 hg)
  subset g hg := (mem_focus.1 hg).imp_right mem_append.2
  upserted := by
    refine ⟨(l1 ++ l2).map (V.mem s.tree.cells), ?_, .inl rfl⟩
    have hsorted : Sorted V.key ((l1 ++ file :: l2).map (V.mem s.tree.cells)) := V.sorted_of_map.2 (hs.insert hlt hgt)
    simp only [map_append, map_cons] at hsorted ⊢
    exact hsorted.inserted

/-- The halves of a full leave with the file in its place; `sf` and `n` are their last files. -/
structure Halves {α : Type} (V : FileView α) (s : Store (Disk Block)) (file : FileNode)
    (fs : List FileNode) (left right : Files) (sf n : FileNode) : Prop where
  edited : Edited V s file fs (left.toList ++ right.toList)
  half_left : LEAVE_MAX_FILE_COUNT / 2 ≤ left.len
  half_right : LEAVE_MAX_FILE_COUNT / 2 ≤ right.len
  last_left : left.toList.getLast? = some sf
  last_right : right.toList.getLast? = some n

theorem exists_getLast? {v : Files} (h : LEAVE_MAX_FILE_COUNT / 2 ≤ v.len) : ∃ f, v.toList.getLast? = some f := by
  have hpos : 0 < v.toList.length := lt_of_lt_of_le (by decide) h
  exact ⟨_, getLast?_eq_some_getLast (ne_nil_of_length_pos hpos)⟩

theorem exists_halves (hedit : Edited V s file fs.toList (l1 ++ file :: l2)) (hl : fs.toList = l1 ++ l2)
    (hfull : fs.isNotFull = false) :
    ∃ left right sf n, splitFiles fs l1.length file = .ok (left, right) ∧
      Halves V s file fs.toList left right sf n := by
  have hlen : fs.len = LEAVE_MAX_FILE_COUNT := by
    have : ¬ fs.len < LEAVE_MAX_FILE_COUNT := by simpa [isNotFull] using hfull
    exact le_antisymm fs.length_le (not_lt.1 this)
  obtain ⟨left, right, hsplit, hlist, hleft, hright⟩ := splitFiles_spec file hl hlen
  obtain ⟨sf, hsf⟩ := exists_getLast? hleft
  obtain ⟨n, hn⟩ := exists_getLast? hright
  exact ⟨left, right, sf, n, hsplit, hlist ▸ hedit, hleft, hright, hsf, hn⟩

namespace Halves
variable {fs : List FileNode} {left right : Files} {sf n : FileNode}
section
variable (h : Halves V s file fs left right sf n)
include h

theorem left_le : ∀ f ∈ left.toList, f.id ≤ sf.id := (sorted_append.1 h.edited.sorted).1.le_getLast h.last_left

theorem lt_right : ∀ f ∈ right.toList, sf.id < f.id :=
  (sorted_append.1 h.edited.sorted).2.2 sf (mem_of_getLast? h.last_left)

theorem right_le : ∀ f ∈ right.toList, f.id ≤ n.id := (sorted_append.1 h.edited.sorted).2.1.le_getLast h.last_right

theorem lt : sf.id < n.id := h.lt_right n (mem_of_getLast? h.last_right)

theorem fits_left (hc : c.files = left.toList.map (V.mem s.tree.cells)) : c.Fits V.key where
  sorted := hc ▸ V.sorted_of_map.2 (sorted_append.1 h.edited.sorted).1
  half := by rw [hc, length_map]; exact h.half_left
  le_max := by rw [hc, length_map]; exact left.length_le

theorem fits_right (hc : c.files = right.toList.map (V.mem s.tree.cells)) : c.Fits V.key where
  sorted := hc ▸ V.sorted_of_map.2 (sorted_append.1 h.edited.sorted).2.1
  half := by rw [hc, length_map]; exact h.half_right
  le_max := by rw [hc, length_map]; exact right.length_le
end
end Halves

/-- What `insert` does with a full leave: the left half stays, the right half goes to a leave of its own. -/
def Store.splitLeave (leave : Addr) (parent : Option Addr) (right : Files) (sf n : FileNode) :
    Prog (Store (Disk Block)) MemTreeError Unit :=
  match parent with
  | some p => do
    unlockNode leave
    let fuel := (← Prog.get).tree.nextAddr + 1
    insertSplit fuel p leave sf.id (.leave parent right true false) n.id
  | none => insertSplitAtRoot leave sf.id (.leave none right true false)

/-- **`insert`, from the leave on**: the file is put in its place and the leave stays, or the leave is split, or the
file is there already. -/
theorem Store.wp_insertInto {parent : Option Addr} {dirty lock : Bool}
    (hfs : s.tree.nodes a = some (.leave parent fs dirty lock)) (hsorted : Sorted FileNode.id fs.toList)
    (hheld : V.Held s.tree.nextCell file) (hfsheld : ∀ f ∈ fs.toList, V.Held s.tree.nextCell f) (createOnly : Bool)
    (hstay : ∀ fs' : Files, Edited V s file fs.toList fs'.toList → fs.len ≤ fs'.len →
      (fs.len < LEAVE_MAX_FILE_COUNT ∨ ∃ f ∈ fs.toList, f.id = file.id) → (createOnly = true → ∀ f ∈ fs.toList, f.id ≠ file.id) →
      (unlockAll a).wp Q E (s.setNode a (some (.leave parent fs' true lock))))
    (hsplit : ∀ left right sf n, Halves V s file fs.toList left right sf n → (∀ f ∈ fs.toList, f.id ≠ file.id) →
      fs.len = LEAVE_MAX_FILE_COUNT →
      (splitLeave a parent right sf n).wp Q E (s.setNode a (some (.leave parent left true lock))))
    (hexists : createOnly = true → ∀ f ∈ fs.toList, f.id = file.id →
      (unlockAll a).wp (fun _ => E (.fileNodeExists file.id)) E s) :
    (insertInto a file createOnly).wp Q E s := by
  simp only [insertInto, wp_bind, wp_deref, hfs, Option.some.injEq, exists_eq_left']
  rcases Files.place hsorted file.id with ⟨l1, f, l2, hl, hf, hidx⟩ | ⟨hne, hidx, l1, l2, hl, hpos, hlt, hgt⟩
  · simp only [hidx]
    rcases createOnly with _ | _
    · obtain ⟨fs', hset, hlist⟩ := exists_setIdx (v := fs) (i := l1.length) file (by rw [StaticVec.len, hl]; simp)
      have hlist' : fs'.toList = l1 ++ file :: l2 := by rw [hlist, hl]; simp
      simp only [Bool.false_eq_true, if_false, wp_bind, hset, lift_ok, wp_pure, wp_assign]
      refine hstay fs' ?_ (by simp [StaticVec.len, hlist])
        (.inr ⟨f, hl ▸ mem_focus.2 (.inl rfl), hf⟩) Bool.noConfusion
      rw [hlist', hl]
      exact .replace (hl ▸ hsorted) hf hheld (hl ▸ hfsheld)
    · simp only [if_true, wp_bind]
      exact hexists rfl f (hl ▸ mem_focus.2 (.inl rfl)) hf
  · have hedit : Edited V s file fs.toList (l1 ++ file :: l2) := by
      rw [hl]
      exact .insert (hl ▸ hsorted) hlt hgt hheld (hl ▸ hfsheld)
    simp only [hidx, hpos]
    split_ifs with hfull
    · have hroom : fs.len < LEAVE_MAX_FILE_COUNT := by simpa [isNotFull] using hfull
      obtain ⟨fs', hins, hlist⟩ := exists_insert (v := fs) (i := l1.length) file hroom (by rw [StaticVec.len, hl]; simp)
      rw [hl, insertIdx_append_length] at hlist
      simp only [wp_bind, hins, lift_ok, wp_pure, wp_assign]
      refine hstay fs' (hlist ▸ hedit) ?_ (.inl hroom) fun _ => hne
      simp only [StaticVec.len, hlist, hl, length_append, length_cons]
      omega
    · have hnot : ¬ fs.len < LEAVE_MAX_FILE_COUNT := by simpa [isNotFull] using hfull
      obtain ⟨left, right, sf, n, hfiles, hh⟩ := exists_halves hedit hl (by simpa using hfull)
      simp only [wp_bind, hfiles, lift_ok, wp_pure, hh.last_left, hh.last_right, expect_some, wp_assign]
      have hhalves := hsplit left right sf n hh hne (le_antisymm fs.length_le (not_lt.1 hnot))
      cases parent with
      | none => exact hhalves
      | some p => simpa only [splitLeave, wp_bind] using hhalves

/-- Inserting into a leave that is the root. -/
theorem LeafRoot.insertInto (H : LeafRoot V s0 s ptr a true true d files)
    (hs : Sorted V.key files) (hheld : V.Held s.tree.nextCell file) (createOnly : Bool)
    (hnew : ∀ s' sh', Rep V s0 s' false sh' → sh'.Valid V.key → sh'.ptrs.Sublist ptr.toList →
      Upserted V.key (V.mem s.tree.cells file) files sh'.entries →
      (createOnly = true → ∀ f ∈ files, V.key f ≠ file.id) → Q () s')
    (hexists : createOnly = true → ∀ s', LeafRoot V s0 s' ptr a false false d files →
      (∃ f ∈ files, V.key f = file.id) → E (.fileNodeExists file.id) s') :
    (insertInto a file createOnly).wp Q E s := by
  obtain ⟨fs, hfs, rfl, hfsheld⟩ := H.leave
  refine wp_insertInto hfs (V.sorted_of_map.1 hs) hheld hfsheld createOnly ?_ ?_ ?_
  · -- the edited leave stays the root
    intro fs' he _ _ hco
    refine LeafRoot.unlockAll (H.setSelf rfl he.held Bool.noConfusion) fun s' H' => ?_
    refine hnew s' (.leave ⟨some a, ptr⟩ _ true) H' ⟨V.sorted_of_map.2 he.sorted, ?_⟩
      (List.Sublist.refl _) he.upserted fun h => ?_
    · simpa using fs'.length_le
    · simpa [V.key_mem] using hco h
  · intro left right sf n hh hne _
    refine LeafRoot.insertSplitAtRoot (H.setSelf rfl
      (fun f hf => hh.edited.held f (mem_append_left _ hf)) Bool.noConfusion) rfl
      (fun f hf => hh.edited.held f (mem_append_right _ hf)) sf.id fun s' y b H' => ?_
    refine hnew s' (.node ⟨some y, none⟩ _ true true) H' ?_ (by simp [Shape.ptrs, Child.fresh]) ?_
      fun h => by simpa [V.key_mem] using hne
    · refine { chained := ?_, fits := ?_, two_le := le_rfl, unlocked := by simp [Child.fresh] }
      · refine (chained_cons_some rfl).2 ⟨?_, sf.id.pos, ?_⟩
        · simpa [Child.fresh, V.key_mem, FileId.pos] using hh.left_le
        · refine (chained_cons_none rfl).2 ⟨?_, rfl⟩
          simpa [Child.fresh, V.key_mem, FileId.lt_def] using hh.lt_right
      · simpa using ⟨hh.fits_left rfl, hh.fits_right rfl⟩
    · simpa [Shape.entries, Child.fresh] using hh.edited.upserted
  · intro hco f hf hid
    refine H.unlockAll fun s' H' => hexists hco s' H' ⟨_, mem_map_of_mem hf, ?_⟩
    rw [V.key_mem, hid]

/-- Inserting into the leave of a child. -/
theorem NodeRoot.insertInto {cs : List (Child α)}
    (H : NodeRoot V s0 s ptr r true true d true (pre ++ (c.placed a).withLock true :: post))
    (hv : Child.Valid V.key cs) (hroute : Child.Route file.id cs pre c post)
    (hheld : V.Held s.tree.nextCell file) (createOnly : Bool)
    (hroom : (∀ f ∈ c.files, V.key f ≠ file.id) → c.files.length = LEAVE_MAX_FILE_COUNT →
      cs.length < NODE_MAX_CHILD_COUNT)
    (hnew : ∀ s' cs' d', NodeRoot V s0 s' ptr r false false d' true cs' → Child.Valid V.key cs' →
      (cs'.filterMap fun c => c.link.devicePtr) = (cs.filterMap fun c => c.link.devicePtr) →
      Upserted V.key (V.mem s.tree.cells file) (entries cs) (entries cs') →
      (createOnly = true → ∀ f ∈ c.files, V.key f ≠ file.id) → Q () s')
    (hexists : createOnly = true → ∀ s', NodeRoot V s0 s' ptr r false false d true
      (pre ++ (c.placed a).withLock false :: post) → (∃ f ∈ c.files, V.key f = file.id) →
      E (.fileNodeExists file.id) s') :
    (insertInto a file createOnly).wp Q E s := by
  obtain ⟨fs, hfs, hfiles, hfsheld⟩ := H.child.leave rfl
  replace hfiles : fs.toList.map (V.mem s.tree.cells) = c.files := hfiles
  have hpre := hroute.ne_before hv
  have hpost := hroute.ne_after hv
  obtain ⟨rfl, hfloor, hmax⟩ := hroute
  have hfits := hv.fits c (mem_focus.2 (.inl rfl))
  have hkey : V.key (V.mem s.tree.cells file) = file.id := V.key_mem ..
  -- the files stay in the range of the child
  have hrange : ∀ new, Edited V s file fs.toList new → ∀ f ∈ new,
      floor 0 pre < f.id.get ∧ f.id ≤ c.max.getD FileId.MAX := by
    intro new he f hf
    rcases he.subset f hf with rfl | hf
    · exact ⟨hfloor, hmax⟩
    · simpa [V.key_mem] using hv.tail.1 (V.mem s.tree.cells f) (hfiles ▸ mem_map_of_mem hf)
  have hup : ∀ new, Edited V s file fs.toList new → Upserted V.key (V.mem s.tree.cells file)
      (entries (pre ++ c :: post))
      (entries pre ++ (new.map (V.mem s.tree.cells) ++ entries post)) := by
    intro new he
    rw [entries_append, entries_cons, ← hfiles]
    exact he.upserted.context (hkey ▸ hpre) (hkey ▸ hpost)
  have hne' : (∀ f ∈ fs.toList, f.id ≠ file.id) → ∀ f ∈ c.files, V.key f ≠ file.id := by
    rw [← hfiles]
    simp [V.key_mem]
  refine wp_insertInto hfs (V.sorted_of_map.1 (hfiles ▸ hfits.sorted)) hheld hfsheld createOnly ?_ ?_ ?_
  · -- the edited leave stays where it is
    intro fs' he hle _ hco
    have H' := H.setChild (((c.placed a).withLock true).withFiles (fs'.toList.map _))
      rfl rfl rfl rfl he.held (fun _ => rfl) Bool.noConfusion
    refine H'.unlockAll_child rfl rfl fun s' H'' => hnew s' _ d H'' ?_ ?_ ?_ fun h => hne' (hco h)
    · refine hv.setFiles rfl ⟨V.sorted_of_map.2 he.sorted, ?_, ?_⟩ rfl ?_
      · simp only [withLock, withFiles, length_map]
        exact hfits.half.trans (by rw [← hfiles, length_map]; exact hle)
      · simpa [withLock, withFiles] using fs'.length_le
      · simpa [withLock, withFiles, V.key_mem] using hrange _ he
    · simp [withLock, withFiles, placed, filterMap_cons]
    · simpa [withLock, withFiles] using hup _ he
  · intro left right sf n hh hne hlen
    have H' := H.setChild (((c.placed a).withLock true).withFiles (left.toList.map _))
      rfl rfl rfl rfl (fun f hf => hh.edited.held f (mem_append_left _ hf)) (fun _ => rfl) Bool.noConfusion
    simp only [splitLeave, wp_bind, wp_get]
    refine H'.rebase.unlockChild rfl rfl fun s2 H2 => ?_
    have hheldR : ∀ f ∈ right.toList, V.Held s.tree.nextCell f := fun f hf => hh.edited.held f (mem_append_right _ hf)
    have hfull : c.files.length = LEAVE_MAX_FILE_COUNT := by rw [← hfiles, length_map]; exact hlen
    refine H2.insertSplit rfl (H2.frame.map_mem_eq hheldR) (fun f hf => H2.frame.held (hheldR f hf))
      sf.id n.id (by simpa using hroom (hne' hne) hfull) _ fun s' b H3 => ?_
    refine hnew s' _ true (H3.after H'.frame) ?_ ?_ ?_ fun _ => hne' hne
    · have hl := fun f hf => hrange _ hh.edited f (mem_append_left _ hf)
      have hr := fun f hf => hrange _ hh.edited f (mem_append_right _ hf)
      refine hv.splice (hv.tail.split rfl rfl ?_ ?_ ?_ hh.lt ?_) ?_ ?_
      · simpa [withMax, withLock, withFiles, V.key_mem] using fun f hf => ⟨(hl f hf).1, hh.left_le f hf⟩
      · simpa [Child.fresh, V.key_mem] using fun f hf => ⟨hh.lt_right f hf, hh.right_le f hf⟩
      · exact (hl sf (mem_of_getLast? hh.last_left)).1
      · exact (hr n (mem_of_getLast? hh.last_right)).2
      · intro e he
        rcases mem_cons.1 he with rfl | he
        · exact ⟨hh.fits_left rfl, rfl⟩
        · rcases mem_cons.1 he with rfl | he
          · exact ⟨hh.fits_right rfl, rfl⟩
          · have hmem : e ∈ pre ++ c :: post := mem_focus.2 (.inr (.inr he))
            exact ⟨hv.fits e hmem, hv.unlocked e hmem⟩
      · simp only [length_append, length_cons]
        omega
    · simp [withMax, withLock, withFiles, placed, Child.fresh, filterMap_cons]
    · simpa [withMax, withLock, withFiles, Child.fresh] using hup _ hh.edited
  · intro hco f hf hid
    refine H.unlockAll_child rfl rfl fun s' H' => hexists hco s' H' ⟨_, hfiles ▸ mem_map_of_mem hf, ?_⟩
    rw [V.key_mem, hid]

/-- Unless `id` would go into a full leave, the root has room for another leave. -/
def Shape.HasRoom (key : α → FileId) (id : FileId) : Shape α → Prop
  | .leave .. => True
  | .node _ cs _ _ => ∀ pre c post, Child.Route id cs pre c post → (∀ f ∈ c.files, key f ≠ id) →
      c.files.length = LEAVE_MAX_FILE_COUNT → cs.length < NODE_MAX_CHILD_COUNT

variable [BlockLayout]

/-- **`insert`** puts the file into the tree, or fails and changes nothing if it is there and must be
new. -/
theorem Rep.insert {sh : Shape α} (H : Rep V s s false sh) (hv : sh.Valid V.key)
    (hheld : V.Held s.tree.nextCell file) (hroom : sh.HasRoom V.key file.id) (createOnly : Bool) :
    (Store.insert file createOnly).wp
      (fun _ s' => ∃ sh', Rep V s s' false sh' ∧ sh'.Valid V.key ∧ sh'.ptrs.Sublist sh.ptrs ∧
        Upserted V.key (V.mem s.tree.cells file) sh.entries sh'.entries ∧
        (createOnly = true → lookup V.key file.id sh.entries = none))
      (fun e s' => e = .fileNodeExists file.id ∧ createOnly = true ∧
        lookup V.key file.id sh.entries ≠ none ∧ ∃ sh', Rep V s s' false sh' ∧ sh'.Valid V.key ∧
          sh'.ptrs = sh.ptrs ∧ sh'.entries = sh.entries) s := by
  have hfound : ∀ {l : List α}, (∃ f ∈ l, V.key f = file.id) → lookup V.key file.id l ≠ none := by
    rintro l ⟨f, hf, hkey⟩ hnone
    exact lookup_eq_none.1 hnone f hf hkey
  simp only [Store.insert, wp_bind, wp_mapErr]
  refine H.findLeave hv true ?_ ?_
  · rintro root files d a s1 rfl H1
    refine H1.insertInto hv.1 (H1.frame.held hheld) createOnly ?_ ?_
    · intro s' sh' H' hv' hptrs hup hco
      rw [H1.frame.mem_eq hheld] at hup
      exact ⟨sh', H', hv', hptrs, hup, fun h => lookup_eq_none.2 (hco h)⟩
    · intro hco s' H' hex
      exact ⟨rfl, hco, hfound hex, .leave ⟨some a, root.devicePtr⟩ files d, H', hv, rfl, rfl⟩
  · rintro root cs d dc r a s1 pre c post rfl hroute H1
    rw [Bool.or_true] at H1
    have hlookup := hroute.lookup_eq hv
    refine H1.insertInto hv hroute (H1.frame.held hheld) createOnly (hroom pre c post hroute) ?_ ?_
    · intro s' cs' d' H' hv' hptrs hup hco
      rw [H1.frame.mem_eq hheld] at hup
      refine ⟨.node ⟨some r, root.devicePtr⟩ cs' d' true, H', hv', ?_, hup, fun h => ?_⟩
      · rw [Shape.ptrs, Shape.ptrs, hptrs]
      · exact hlookup.trans (lookup_eq_none.2 (hco h))
    · intro hco s' H' hex
      obtain rfl := hroute.eq
      have hfits := hv.fits c (mem_focus.2 (.inl rfl))
      refine ⟨rfl, hco, hlookup.trans_ne (hfound hex), .node ⟨some r, root.devicePtr⟩ _ d true, H', ?_, ?_, ?_⟩
      · exact Child.Valid.setFiles hv rfl ⟨hfits.sorted, hfits.half, hfits.le_max⟩ rfl hv.tail.1
      · simp [Shape.ptrs, placed, withLock, filterMap_cons]
      · simp [Shape.entries, placed, withLock]
end Insert
end WasabiOS
