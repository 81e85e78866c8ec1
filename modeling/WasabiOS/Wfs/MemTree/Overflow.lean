import WasabiOS.Wfs.MemTree.Invariant

/-!
# Wfs/MemTree/Overflow — a split that does not fit

When the parent of a split leave is full, `insert_split` splits the parent as well, but leaves the
separator of the old child as it was.  Here the last leave of a full tree of two levels is split by
the largest id so far: the old leave was the last child and has no separator, the new one gets none
either, and the walk for the new id ends in the old leave (`Overflown.find`).
-/

open Machinery Prog Machinery.Keyed
namespace WasabiOS
open Store List Bool
variable {s : Store (Disk Block)} {a r : Addr} {d : Bool} {id : FileId} {ptr : Option (DevicePointer .treeNode)}

/-- What such an insert of `id` leaves behind: a new root `y` above the old one and its new right
half `x`, which ends in the two leaves `a` and `new`, both without separator. -/
structure Overflown (s : Store (Disk Block)) (id : FileId) (y x r a : Addr) : Prop where
  root : s.tree.root = { node := some y, devicePtr := none }
  rootLock : s.tree.rootLock = false
  top : ∃ (children : Children) (m : FileId), s.tree.nodes y = some (.node none children true true false) ∧
    m < id ∧ children.toList = [({ node := some r, devicePtr := none }, some m),
      ({ node := some x, devicePtr := none }, none)]
  right : ∃ (children : Children) (pre : List (MemTreeLink × Option FileId))
    (ptr : Option (DevicePointer .treeNode)) (new : MemTreeLink),
    s.tree.nodes x = some (.node (some y) children true true false) ∧
    children.toList = pre ++ [({ node := some a, devicePtr := ptr }, none), (new, none)] ∧
    ∀ e ∈ pre, ∃ m : FileId, e.2 = some m ∧ m < id
  old : ∃ (parent : Option Addr) (files : Files), s.tree.nodes a = some (.leave parent files true false) ∧
    ∀ f ∈ files.toList, f.id ≠ id
  distinct : y ≠ x ∧ y ≠ a ∧ x ≠ a

section Walk
variable [BlockLayout] {b : Addr} {parent : Option Addr} {children : Children} {dc : Bool} {i : ℕ}
  {max : Option FileId} {n : MemTreeNode} {Q : Addr → Store (Disk Block) → Prop}
  {E : FsError → Store (Disk Block) → Prop}

/-- A reader steps down to a child that is in memory. -/
theorem Store.descend_step {fuel : ℕ} (ha : s.tree.nodes a = some (.node parent children d dc true))
    (hroute : routeIndex id children = some i)
    (hchild : children.toList[i]? = some ({ node := some b, devicePtr := ptr }, max))
    (hb : s.tree.nodes b = some n) (hn : n.isLocked = false) (hne : a ≠ b)
    (hQ : ∀ s', s'.tree.nodes b = some (n.setLock true) → (∀ x, x ≠ a → x ≠ b → s'.tree.nodes x = s.tree.nodes x) →
      (descend false id fuel b).wp Q E s') :
    (descend false id (fuel + 1) a).wp Q E s := by
  rw [descend]
  simp only [wp_bind, wp_deref, ha, Option.some.injEq, exists_eq_left', wp_assign, hroute,
    expect_some, wp_pure, resolve, wp_getLink_child setNode_nodes_self, hchild,
    wp_lockNode, false_eq_true, if_false, wp_unlockNode]
  refine ⟨n, (setNode_nodes_of_ne hne.symm).trans hb, hn, .node parent children d (dc || false) true,
    ?_, rfl, hQ _ ?_ ?_⟩
  · exact (setNode_nodes_of_ne hne).trans setNode_nodes_self
  · exact (setNode_nodes_of_ne hne.symm).trans setNode_nodes_self
  · intro x hxa hxb
    simp only [setNode_nodes, hxa, hxb, if_false]
end Walk

namespace Overflown
variable {y x : Addr}

/-- The separators are broken. -/
theorem not_repInv (h : Overflown s id y x r a) : ¬ s.tree.RepInv := by
  rintro ⟨-, height, r', hr', hsub⟩
  obtain ⟨top, m, hy, -, htop⟩ := h.top
  obtain ⟨right, pre, ptr, new, hx, hright, -⟩ := h.right
  obtain rfl : y = r' := by simpa [h.root] using hr'
  rcases height with _ | _ | height
  · obtain ⟨files, dirty, hfiles, -⟩ := hsub
    simp [hy] at hfiles
  · obtain ⟨children, dirty, dc, hchildren, -, hranges⟩ := hsub
    obtain ⟨rfl, -, -⟩ : top = children ∧ true = dirty ∧ true = dc := by simpa [hy] using hchildren
    rw [htop] at hranges
    obtain ⟨-, -, -, b, hb, files, dirty', hfiles, -⟩ := hranges
    obtain rfl : x = b := by simpa using hb
    simp [hx] at hfiles
  · obtain ⟨children, dirty, dc, hchildren, -, hranges⟩ := hsub
    obtain ⟨rfl, -, -⟩ : top = children ∧ true = dirty ∧ true = dc := by simpa [hy] using hchildren
    rw [htop] at hranges
    obtain ⟨-, -, -, b, hb, children', dirty', dc', hchildren', -, hranges'⟩ := hranges
    obtain rfl : x = b := by simpa using hb
    obtain ⟨-, rfl, -, -⟩ : y = y ∧ right = children' ∧ true = dirty' ∧ true = dc' := by simpa [hx] using hchildren'
    rw [hright] at hranges'
    exact MemTree.not_ranges_of_none hranges'

/-- The new file is not found. -/
theorem find [BlockLayout] (h : Overflown s id y x r a) {E : FsError → Store (Disk Block) → Prop} :
    (Store.find id).wp (fun file _ => file = none) E s := by
  obtain ⟨top, m, hy, hm, htop⟩ := h.top
  obtain ⟨right, pre, ptr, new, hx, hright, hpre⟩ := h.right
  obtain ⟨parent, files, ha, hfiles⟩ := h.old
  obtain ⟨hyx, hya, hxa⟩ := h.distinct
  have hroute : routeIndex id top = some 1 := by simp [routeIndex, htop, findIdx?_cons, hm, FileId.le_MAX]
  have hroute' : routeIndex id right = some pre.length := by
    rw [routeIndex, hright, findIdx?_append_cons]
    · exact decide_eq_true (FileId.le_MAX id)
    · intro e he
      obtain ⟨m', hm', hlt⟩ := hpre e he
      simpa [hm'] using hlt
  simp only [Store.find, findLeave, wp_bind, wp_lockRoot, resolve,
    wp_getLink_root, setRootLock_root, h.root, wp_pure, wp_lockNode,
    setRootLock_nodes, hy, Option.some.injEq, exists_eq_left', false_eq_true, if_false,
    wp_unlockRoot, wp_get]
  obtain ⟨fuel, hfuel⟩ : ∃ fuel, s.tree.nextAddr + LBA.addressCount + 1 = fuel + 3 :=
    ⟨s.tree.nextAddr + (LBA.addressCount - 2), by simp [LBA.addressCount, u64Size]⟩
  refine ⟨h.rootLock, rfl, rfl, ?_⟩
  simp only [setRootLock_nextAddr, setNode_nextAddr, hfuel]
  have hlast : right.toList[pre.length]? = some ({ node := some a, devicePtr := ptr }, none) := by simp [hright]
  refine descend_step setNode_nodes_self hroute (by rw [htop]; rfl)
    ((setNode_nodes_of_ne hyx.symm).trans hx) rfl hyx fun s1 hx1 hrest1 => ?_
  refine descend_step hx1 hroute' hlast
    (((hrest1 a hya.symm hxa.symm).trans (setNode_nodes_of_ne hya.symm)).trans ha) rfl hxa
    fun s2 ha2 _ => ?_
  simp only [descend, wp_bind, wp_deref, ha2, Option.some.injEq, exists_eq_left',
    wp_pure, wp_unlockNode, MemTreeNode.setLock]
  refine ⟨rfl, find?_eq_none.2 fun f hf => ?_⟩
  simpa using hfiles f hf
end Overflown

/-! ## The insert -/

variable {α : Type} {V : FileView α} {s0 : Store (Disk Block)} {c : Child α} {pre : List (Child α)}
  {Q : Unit → Store (Disk Block) → Prop} {E : MemTreeError → Store (Disk Block) → Prop}

/-- The parent is full and the split leave is its last child. -/
theorem NodeRoot.insertSplit_full (H : NodeRoot V s0 s ptr r true true d true (pre ++ [c]))
    (ha : c.link.node = some a) (hlen : pre.length + 1 = NODE_MAX_CHILD_COUNT) (hmax : c.max = none)
    (hdirty : c.dirty = true) (hlocked : c.locked = false)
    (hfiles : ∀ f ∈ c.files, V.key f ≠ id)
    (hpre : ∀ e ∈ pre, ∃ m, e.max = some m ∧ m < id) (newNode : MemTreeNode) (oldMax newMax : FileId)
    (fuel : ℕ) (hQ : ∀ s' y x, Overflown s' id y x r a → Q () s') :
    (Store.insertSplit (fuel + 1) r a oldMax newNode newMax).wp Q E s := by
  obtain ⟨children, hr, hchildren⟩ := H.node
  obtain ⟨fs, hfs, hmem, -⟩ := H.child.leave ha
  rw [hdirty, hlocked] at hfs
  replace hlen : pre.length = 249 := Nat.succ.inj hlen
  have hchildrenLen : children.len = 250 := by
    rw [StaticVec.len, hchildren, length_map, length_append, hlen]
    rfl
  have hidx : children.toList.findIdx? (fun e => e.1.node = some a) = some 249 := by
    rw [hchildren, Children.findIdx?_node H.distinct ha, hlen]
  -- the halves of the parent
  obtain ⟨left, right, hdrain, hleft, hright⟩ := StaticVec.exists_drain (v := children) (k := 125)
    (by rw [hchildrenLen]; decide)
  have hleftLen : left.len = 125 := by
    rw [StaticVec.len, hleft, length_take, ← StaticVec.len, hchildrenLen]
    rfl
  have hrightLen : right.len = 125 := by rw [StaticVec.len, hright, length_drop, ← StaticVec.len, hchildrenLen]
  have hrightList : right.toList = (pre.drop 125).map Child.entry ++ [c.entry] := by
    rw [hright, hchildren, ← map_drop, drop_append_of_le_length (by rw [hlen]; decide)]
    simp
  obtain ⟨right', hins, hright'⟩ := StaticVec.exists_insert (v := right) (i := 125)
    ((⟨some s.tree.nextAddr, none⟩, none) : MemTreeLink × Option FileId)
    (by rw [hrightLen]; decide) hrightLen.ge
  have hrightList' : right'.toList = (pre.drop 125).map Child.entry ++
      [c.entry, (⟨some s.tree.nextAddr, none⟩, none)] := by
    have hlast : right.toList.insertIdx 125 ((⟨some s.tree.nextAddr, none⟩, none) : MemTreeLink × Option FileId) =
        right.toList ++ [(⟨some s.tree.nextAddr, none⟩, none)] := by
      rw [← hrightLen]
      exact insertIdx_length_self
    rw [hright', hlast, hrightList, append_assoc]
    rfl
  obtain ⟨e, m, hlast, hm, hlt⟩ : ∃ e m, left.toList.getLast? = some e ∧ e.2 = some m ∧ m < id := by
    have hleftList : left.toList = (pre.take 125).map Child.entry := by
      rw [hleft, hchildren, ← map_take, take_append_of_le_length (by rw [hlen]; decide)]
    obtain ⟨e, he⟩ : ∃ e, left.toList.getLast? = some e := by
      have hpos : 0 < left.toList.length := by rw [← StaticVec.len, hleftLen]; decide
      exact ⟨_, getLast?_eq_some_getLast (ne_nil_of_length_pos hpos)⟩
    obtain ⟨c', hc', rfl⟩ := mem_map.1 (hleftList ▸ mem_of_getLast? he)
    obtain ⟨m, hm, hlt⟩ := hpre c' (mem_of_mem_take hc')
    exact ⟨c'.entry, m, he, hm, hlt⟩
  have hfull : children.isNotFull = false :=
    decide_eq_false (by rw [hchildrenLen]; exact lt_irrefl 250)
  have hhalf : children.capacity / 2 = 125 := by simp [StaticVec.capacity, NODE_MAX_CHILD_COUNT]
  simp only [Store.insertSplit, wp_bind, Store.wp_deref, hr, Option.some.injEq,
    exists_eq_left', Store.wp_allocNode, hidx, expect_some, wp_pure, wp_assert,
    hchildrenLen, hfull, false_eq_true, if_false, hhalf, hdrain, lift_ok, hleftLen,
    hrightLen]
  have hsplit : (if 249 + 1 ≤ 125 then (do
        let left ← left.insert (249 + 1) ((⟨some s.tree.nextAddr, none⟩ : MemTreeLink),
          if 249 + 1 ≠ 125 then some newMax else none)
        pure (left, right) : Checked (Children × Children))
      else do
        let right ← right.insert (249 + 1 - 125) ((⟨some s.tree.nextAddr, none⟩ : MemTreeLink),
          if 249 + 1 - 125 ≠ 125 then some newMax else none)
        pure (left, right)) = .ok (left, right') := by
    rw [if_neg (by decide)]
    simp only [Nat.reduceAdd, Nat.reduceSub, ne_eq, not_true_eq_false, if_false, hins]
    rfl
  refine ⟨rfl, rfl, ?_⟩
  simp only [hsplit, lift_ok, wp_pure, hlast, hm, expect_some, wp_assign]
  have hra := H.ne_root H.child ha
  have haLt := H.lt_next H.child ha
  have hrLt := H.root_lt_next
  have hax : a ≠ s.tree.nextAddr + 1 := (haLt.trans (lt_add_one _)).ne
  have hay : a ≠ s.tree.nextAddr + 1 + 1 := (haLt.trans_le (Nat.le_add_right _ 2)).ne
  have hyr : s.tree.nextAddr + 1 + 1 ≠ r := (hrLt.trans_le (Nat.le_add_right _ 2)).ne'
  refine insertSplitAtRoot_spec setNode_nodes_self rfl rfl (by simp [H.root])
    (by simpa using H.rootLock) (hrLt.trans (lt_add_one _)) m
    fun s' _ _ _ hroot hlock _ hnodes => hQ s' (s.tree.nextAddr + 1 + 1) (s.tree.nextAddr + 1) ?_
  refine { root := hroot, rootLock := hlock, top := ?_, right := ?_, old := ?_, distinct := ?_ }
  · refine ⟨Children.halves r m (s.tree.nextAddr + 1), m, ?_, hlt, rfl⟩
    exact (hnodes _).trans (((if_neg (lt_add_one _).ne').trans (if_neg hyr)).trans (if_pos rfl))
  · refine ⟨right', (pre.drop 125).map Child.entry, c.link.devicePtr, ⟨some s.tree.nextAddr, none⟩, ?_, ?_, ?_⟩
    · exact (hnodes _).trans (if_pos rfl)
    · rw [hrightList', Child.entry, hmax, ← ha]
    · intro e he
      obtain ⟨c', hc', rfl⟩ := mem_map.1 he
      exact hpre c' (mem_of_mem_drop hc')
  · refine ⟨some r, fs, ?_, fun f hf => ?_⟩
    · refine (hnodes a).trans (((if_neg hax).trans (if_neg hra)).trans ((if_neg hay).trans ?_))
      rw [setNode_nodes_of_ne hra, addNode_nodes_of_ne haLt.ne, hfs]
    · rw [← V.key_mem s.tree.cells f]
      exact hfiles _ (hmem ▸ mem_map_of_mem hf)
  · exact ⟨(lt_add_one _).ne', hay.symm, hax.symm⟩

variable {file : FileNode}

/-- The new file is the largest, and its leave and its parent are full. -/
theorem NodeRoot.insertInto_full {cs : List (Child α)}
    (H : NodeRoot V s0 s ptr r true true d true (pre ++ [(c.placed a).withLock true]))
    (hv : Child.Valid V.key cs) (hroute : Child.Route file.id cs pre c [])
    (hlen : cs.length = NODE_MAX_CHILD_COUNT) (hfull : c.files.length = LEAVE_MAX_FILE_COUNT)
    (hlt : ∀ f ∈ c.files, V.key f < file.id) (hheld : V.Held s.tree.nextCell file)
    (createOnly : Bool) (hQ : ∀ s' y x, Overflown s' file.id y x r a → Q () s') :
    (Store.insertInto a file createOnly).wp Q E s := by
  obtain ⟨fs, hfs, hfiles, hfsheld⟩ := H.child.leave rfl
  replace hfiles : fs.toList.map (V.mem s.tree.cells) = c.files := hfiles
  obtain ⟨rfl, hfloor, hmax⟩ := hroute
  have hc : c ∈ pre ++ [c] := mem_focus.2 (.inl rfl)
  have hsorted : Sorted FileNode.id fs.toList := V.sorted_of_map.1 (hfiles ▸ (hv.fits c hc).sorted)
  have hfsLt : ∀ f ∈ fs.toList, f.id < file.id := fun f hf => by
    rw [← V.key_mem s.tree.cells f]
    exact hlt _ (hfiles ▸ mem_map_of_mem hf)
  obtain ⟨hchain, hlast⟩ := Child.chained_append.1 hv.chained
  have hcmax : c.max = none := by
    rcases hm : c.max with _ | m
    · rfl
    · exact ((Child.chained_cons_some hm).1 hlast).2.2.elim
  have hfsFull : ¬ fs.len < LEAVE_MAX_FILE_COUNT := by
    rw [StaticVec.len, ← length_map, hfiles, hfull]
    exact lt_irrefl _
  refine wp_insertInto hfs hsorted hheld hfsheld createOnly ?_ ?_ ?_
  · rintro fs' - - (h | ⟨f, hf, hid⟩) -
    · exact absurd h hfsFull
    · exact absurd hid (hfsLt f hf).ne
  · intro left right sf n hh _ _
    -- the new file is in the right half
    have hleft : ∀ f ∈ left.toList, f.id < file.id := fun f hf => by
      have hn : n.id ≤ file.id := by
        rcases hh.edited.subset n (mem_append_right _ (mem_of_getLast? hh.last_right)) with
          rfl | hn
        · exact le_rfl
        · exact (hfsLt n hn).le
      exact ((hh.left_le f hf).trans_lt hh.lt).trans_le hn
    have H' := H.setChild (((c.placed a).withLock true).withFiles (left.toList.map _))
      rfl rfl rfl rfl (fun f hf => hh.edited.held f (mem_append_left _ hf)) (fun _ => rfl) Bool.noConfusion
    simp only [splitLeave, wp_bind, wp_get]
    refine H'.rebase.unlockChild rfl rfl fun s2 H2 => ?_
    refine H2.insertSplit_full rfl ?_ hcmax rfl rfl ?_ ?_ _ _ _ _ hQ
    · simpa using hlen
    · simpa [Child.withLock, Child.withFiles, V.key_mem] using fun f hf => (hleft f hf).ne
    · intro e he
      obtain ⟨m, hm, hle⟩ := hchain.max_le he
      exact ⟨m, hm, FileId.lt_def.2 (hle.trans_lt hfloor)⟩
  · exact fun _ f hf hid => absurd hid (hfsLt f hf).ne

/-- **An insert of the largest id that overflows** breaks the separators. -/
theorem Rep.insert_overflows [BlockLayout] {sh : Shape α} (H : Rep V s s false sh)
    (hv : sh.Valid V.key) (hheld : V.Held s.tree.nextCell file)
    (hlt : ∀ f ∈ sh.entries, V.key f < file.id) (hover : s.overflows file.id = true)
    (createOnly : Bool) :
    (Store.insert file createOnly).wp (fun _ s' => ∃ y x r a, Overflown s' file.id y x r a) E s := by
  simp only [Store.insert, wp_bind, wp_mapErr]
  refine H.findLeave hv true ?_ ?_
  · rintro root files d a s1 rfl -
    rw [H.overflows_leave] at hover
    cases hover
  · rintro root cs d dc r a s1 pre c post rfl hroute H1
    obtain ⟨hlen, hfull, -⟩ := (H.overflows_node hv hroute).1 hover
    -- the files of a later child would be larger
    obtain rfl : post = [] := by
      rcases post with _ | ⟨c', post⟩
      · rfl
      · exfalso
        obtain ⟨rfl, -, hmax⟩ := hroute
        have hc' : c' ∈ pre ++ c :: c' :: post := by simp
        have hpos : 0 < c'.files.length := lt_of_lt_of_le (by decide) (hv.fits c' hc').half
        obtain ⟨f, hf⟩ := exists_mem_of_length_pos hpos
        have hgt : file.id < V.key f := (Child.chained_append.1 hv.chained).2.lt_after hmax (mem_append_left _ hf)
        exact (hgt.trans (hlt f (by simp [Shape.entries, hf]))).false
    rw [Bool.or_true] at H1
    refine H1.insertInto_full hv hroute hlen hfull (fun f hf => hlt f ?_) (H1.frame.held hheld)
      createOnly fun s' y x h => ⟨y, x, r, a, h⟩
    rw [hroute.eq]
    simp [Shape.entries, hf]
end WasabiOS
