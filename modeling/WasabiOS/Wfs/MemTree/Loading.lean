import WasabiOS.Wfs.MemTree.Represents

/-!
# Wfs/MemTree/Loading — reading nodes from the device

A link whose node is not in memory is resolved by reading its block; each file of a leave gets a cell
for its block list.  What the tree stands for stays as it was.
-/

open Machinery Prog Machinery.Keyed
namespace WasabiOS
open Store List

/-- Only cells were added. -/
structure CellsGrown (s s' : Store (Disk Block)) : Prop where
  frame : Frame s s'
  root : s'.tree.root = s.tree.root
  rootLock : s'.tree.rootLock = s.tree.rootLock
  nodes : s'.tree.nodes = s.tree.nodes
  nextAddr : s'.tree.nextAddr = s.tree.nextAddr

namespace Store

/-- The state after a cell was made. -/
def addCell {D : Type} (s : Store D) (access : BlockListAccess) : Store D := { s with tree := { s.tree with
      cells := Function.update s.tree.cells s.tree.nextCell (some access)
      nextCell := s.tree.nextCell + 1 } }

theorem wp_newCell {D ε : Type} {s : Store D} {access : BlockListAccess} {E : ε → Store D → Prop}
    {Q : CellId → Store D → Prop} :
    (newCell access : Prog (Store D) ε CellId).wp Q E s ↔ Q s.tree.nextCell (s.addCell access) :=
  Iff.rfl
end Store

variable {α : Type} {V : FileView α} {s0 s s' s'' : Store (Disk Block)} {a r : Addr} {parent : Option Addr}
  {files : List α} {dirty locked : Bool}

namespace CellsGrown

theorem refl (s : Store (Disk Block)) : CellsGrown s s := ⟨.refl s, rfl, rfl, rfl, rfl⟩

theorem trans (h : CellsGrown s s') (h' : CellsGrown s' s'') : CellsGrown s s'' where
  frame := h.frame.trans h'.frame
  root := h'.root.trans h.root
  rootLock := h'.rootLock.trans h.rootLock
  nodes := h'.nodes.trans h.nodes
  nextAddr := h'.nextAddr.trans h.nextAddr

theorem addCell (s : Store (Disk Block)) (head : BlockListHead) : CellsGrown s (s.addCell (.onDevice head)) where
  frame :=
    { device := rfl
      allocator := rfl
      nextCell_le := Nat.le_succ _
      cells_old := fun c hc => Function.update_of_ne hc.ne _ _ }
  root := rfl
  rootLock := rfl
  nodes := rfl
  nextAddr := rfl

theorem leaveAt (hg : CellsGrown s s') (h : LeaveAt V s.tree a parent files dirty locked) :
    LeaveAt V s'.tree a parent files dirty locked := by
  obtain ⟨fs, hfs, hfiles, hheld⟩ := h
  refine ⟨fs, by rw [hg.nodes, hfs], ?_, fun f hf => hg.frame.held (hheld f hf)⟩
  rw [hg.frame.map_mem_eq hheld, hfiles]

theorem childRep {c : Child α} (hg : CellsGrown s s') (h : ChildRep V s r c) : ChildRep V s' r c := by
  unfold ChildRep LeaveOnDisk at h ⊢
  rw [hg.frame.device, hg.frame.allocator]
  rcases hl : c.link.node with _ | a
  · simpa only [hl] using h
  · simp only [hl] at h ⊢
    exact ⟨hg.leaveAt h.1, h.2⟩

theorem nodeRoot {ptr : Option (DevicePointer .treeNode)} {rl l d dc : Bool} {cs : List (Child α)}
    (hg : CellsGrown s s') (H : NodeRoot V s0 s ptr r rl l d dc cs) :
    NodeRoot V s0 s' ptr r rl l d dc cs where
  frame := H.frame.trans hg.frame
  root := hg.root.trans H.root
  rootLock := hg.rootLock.trans H.rootLock
  node := by rw [hg.nodes]; exact H.node
  children c hc := hg.childRep (H.children c hc)
  distinct := H.distinct
  marked := H.marked
  clean := by rw [hg.frame.device]; exact H.clean
  fresh := by rw [hg.nodes, hg.nextAddr]; exact H.fresh
end CellsGrown

/-- Loading the files of a leave gives file nodes that stand for them. -/
theorem Store.wp_loadFiles {ε : Type} {E : ε → Store (Disk Block) → Prop} (hV : V.Loads) :
    ∀ (gs : List FsFileNode) (s : Store (Disk Block)) {Q : List FileNode → Store (Disk Block) → Prop},
      (∀ fs s', CellsGrown s s' → fs.map (V.mem s'.tree.cells) = gs.map V.load →
        (∀ f ∈ fs, V.Held s'.tree.nextCell f) → Q fs s') →
      (loadFiles gs : Prog (Store (Disk Block)) ε _).wp Q E s
  | [], s, Q, hQ => hQ [] s (.refl s) rfl (by simp)
  | g :: gs, s, Q, hQ => by
    simp only [loadFiles, wp_bind, wp_newCell, wp_pure]
    refine wp_loadFiles hV gs _ fun fs s' hg hfs hheld => ?_
    -- the first file was made before the others and keeps its cell
    have hfirst : V.Held (s.addCell (.onDevice g.blockData)).tree.nextCell (.ofFs g s.tree.nextCell) := V.held_ofFs hV
    refine hQ _ s' ((CellsGrown.addCell s _).trans hg) ?_ ?_
    · rw [map_cons, map_cons, hfs, hg.frame.mem_eq hfirst]
      exact congrArg (· :: _) (V.mem_ofFs hV)
    · intro f hf
      rcases mem_cons.1 hf with rfl | hf
      · exact hg.frame.held hfirst
      · exact hheld f hf

/-! ## Resolving links -/

/-- The child with its leave at an address. -/
def Child.placed {α : Type} (c : Child α) (a : Addr) : Child α := { c with link := { c.link with node := some a } }

theorem Child.placed_eq {c : Child α} (h : c.link.node = some a) : c.placed a = c := by
  rcases c with ⟨⟨node, ptr⟩, max, files, dirty, locked⟩
  obtain rfl : node = some a := h
  rfl

section Resolve
variable [BlockLayout] {ptr : Option (DevicePointer .treeNode)} {rl l d dc : Bool} {c : Child α}
  {cs pre post : List (Child α)} {Q : Addr → Store (Disk Block) → Prop} {E : FsError → Store (Disk Block) → Prop}

theorem Store.wp_readNode {p : DevicePointer .treeNode} {t : TreeNode}
    {Q : TreeNode → Store (Disk Block) → Prop} (h : s.device.blocks p.lba = .treeNode t) :
    (onDevice (mapErr mapDeviceError (readPointer p)) :
      Prog (Store (Disk Block)) FsError TreeNode).wp Q E s ↔ Q t s := by
  have hread : (s.device.blocks p.lba).read .treeNode = some t := by rw [h]; rfl
  rw [onDevice, wp_zoom, wp_mapErr, wp_of_ok (readPointer_disk hread)]

omit [BlockLayout] in
/-- `MemTreeNode::new_from` of a leave -/
theorem Store.wp_newFrom_leave {gs : StaticVec FsFileNode LEAVE_MAX_FILE_COUNT}
    {Q : MemTreeNode → Store (Disk Block) → Prop} (hV : V.Loads)
    (hQ : ∀ (fs : Files) s', CellsGrown s s' → fs.toList.map (V.mem s'.tree.cells) = gs.toList.map V.load →
      (∀ f ∈ fs.toList, V.Held s'.tree.nextCell f) → Q (.leave parent fs false false) s') :
    (newFrom (.leave gs) parent : Prog (Store (Disk Block)) FsError _).wp Q E s := by
  simp only [newFrom, wp_bind, wp_pure]
  refine wp_loadFiles hV gs.toList s fun fs s' hg hfs hheld => ?_
  -- nothing is cut off: there are as many files as in the block
  have hlen : fs.length ≤ LEAVE_MAX_FILE_COUNT := by
    have := congrArg List.length hfs
    rw [length_map, length_map] at this
    exact this ▸ gs.length_le
  have htake : (StaticVec.collect fs : Files).toList = fs := take_of_length_le hlen
  exact hQ _ s' hg (by rw [htake]; exact hfs) (by rw [htake]; exact hheld)

/-- **Resolving a child** puts its leave into memory and changes nothing else. -/
theorem NodeRoot.resolve (H : NodeRoot V s0 s ptr r rl l d dc (pre ++ c :: post))
    (hQ : ∀ a s', (∀ b, c.link.node = some b → b = a) →
      NodeRoot V s0 s' ptr r rl l d dc (pre ++ c.placed a :: post) → Q a s') :
    (resolve (.child r pre.length) (some r)).wp Q E s := by
  obtain ⟨children, hr, hchildren⟩ := H.node
  have hentry : children.toList[pre.length]? = some c.entry := by simp [hchildren]
  simp only [Store.resolve, wp_bind, Store.wp_getLink_child hr, hentry, Option.some.injEq,
    exists_eq_left', Child.entry]
  rcases hnode : c.link.node with _ | a
  · obtain ⟨hdirty, hlocked, hV, p, gs, hp, hblock, hgs⟩ : c.dirty = false ∧ c.locked = false ∧
        Unloaded V s.device c.link.devicePtr c.files := by
      simpa only [ChildRep, hnode] using H.child
    simp only [hp, expect_some, wp_bind, wp_pure, wp_readNode hblock]
    refine wp_newFrom_leave hV fun fs s1 hg hfs hheld => ?_
    have H1 := (hg.nodeRoot H).addNode (.leave (some r) fs false false)
    obtain ⟨children1, hr1, hchildren1⟩ := H1.node
    rw [wp_allocNode, wp_setLink_child hr1]
    have hlen : pre.length < children1.len := by simp [StaticVec.len, hchildren1]
    obtain ⟨children2, hset⟩ : ∃ children2, children1.setIdx pre.length
        ((c.placed s1.tree.nextAddr).link, c.max) = .ok children2 := by
      simp [StaticVec.setIdx, hlen]
    refine ⟨c.entry, by simp [hchildren1], children2, by simpa [Child.placed, Child.entry, hp] using hset, ?_⟩
    refine hQ _ _ (fun b hb => by rw [hnode] at hb; cases hb) (H1.setSelf ?_ ?_ ?_ ?_ ?_)
    · rw [(StaticVec.setIdx_eq_ok.1 hset).2, hchildren1]
      simp [Child.entry, Child.placed]
    · intro e he
      rcases mem_focus.1 he with rfl | he
      · refine .of_leave rfl ?_ fun _ => ⟨p, gs, hp, ?_, ?_⟩
        · simp only [Child.placed, hdirty, hlocked]
          exact ⟨fs, addNode_nodes_self, hfs.trans hgs, hheld⟩
        · rw [addNode_device, hg.frame.device, hblock]
        · rw [Child.placed, ← hgs, forall₂_map_right_iff]
          exact forall₂_same.2 fun _ _ => V.onDisk_load hV
      · exact H1.children e (mem_focus.2 (.inr he))
    · have hfresh : s1.tree.nextAddr ∉ addrs (pre ++ post) := fun hmem => by
        obtain ⟨e, he, hea⟩ := mem_addrs.1 hmem
        have hchild := hg.childRep (H.children e (mem_focus.2 (.inr (mem_append.1 he))))
        exact ((hg.nodeRoot H).lt_next hchild hea).ne rfl
      have hnodup := H.distinct
      rw [addrs_append, addrs_cons_none hnode, ← addrs_append] at hnodup
      rw [addrs_append, addrs_cons_some (a := s1.tree.nextAddr) rfl, nodup_middle, ← addrs_append]
      exact nodup_cons.2 ⟨hfresh, hnodup⟩
    · intro e he
      rcases mem_focus.1 he with rfl | he
      · exact fun h => by simp [Child.placed, hdirty] at h
      · exact H1.marked e (mem_focus.2 (.inr he))
    · intro hd hall
      obtain ⟨q, cs', hq, hb, hmap⟩ := H1.clean hd fun e he => by
        rcases mem_focus.1 he with rfl | he
        · exact hdirty
        · exact hall e (mem_focus.2 (.inr he))
      exact ⟨q, cs', hq, hb, by simpa [Child.placed] using hmap⟩
  · rw [wp_pure]
    exact hQ a s (fun b hb => by rw [hnode] at hb; exact (Option.some.inj hb).symm)
      (by rw [Child.placed_eq hnode]; exact H)

/-- **Resolving the root** puts it into memory and changes nothing else. -/
theorem Rep.resolve {sh : Shape α} (H : Rep V s0 s rl sh) (hQ : ∀ a s', Rep V s0 s' rl (sh.placed a) → Q a s') :
    (Store.resolve .root none).wp Q E s := by
  simp only [Store.resolve, wp_bind, Store.wp_getLink_root]
  rcases sh with ⟨⟨_ | a, ptr⟩, files, dirty⟩ | ⟨⟨_ | r, ptr⟩, cs, dirty, dc⟩
  · obtain ⟨hroot, hdirty, hV, p, gs, rfl, hblock, hgs⟩ := H
    simp only [hroot.root, expect_some, wp_bind, wp_pure, Store.wp_readNode hblock]
    refine wp_newFrom_leave hV fun fs s1 hg hfs hheld => ?_
    rw [wp_allocNode, wp_setLink_root]
    refine hQ _ _ ?_
    refine { frame := ?_, root := rfl, rootLock := ?_, leave := ?_, clean := ?_, fresh := ?_ }
    · exact (hroot.frame.trans hg.frame).trans (.of_eq rfl rfl rfl rfl)
    · exact hg.rootLock.trans hroot.rootLock
    · rw [hdirty]
      exact ⟨fs, addNode_nodes_self, hfs.trans hgs, hheld⟩
    · refine fun _ => ⟨p, gs, rfl, ?_, ?_⟩
      · rw [setRoot_device, addNode_device, hg.frame.device, hblock]
      · rw [← hgs, forall₂_map_right_iff]
        exact forall₂_same.2 fun _ _ => V.onDisk_load hV
    · intro x hx
      have hlt : s1.tree.nextAddr < x := hx
      rw [setRoot_nodes, addNode_nodes_of_ne hlt.ne', hg.nodes]
      exact hroot.fresh x (hg.nextAddr ▸ hlt.le)
  · simp only [LeafRoot.root H, wp_pure]
    exact hQ a s H
  · obtain ⟨hroot, hdirty, hdc, hdisk, hcs⟩ := H
    obtain ⟨p, children, rfl, hblock, hentries⟩ := hdisk.entries fun c hc => (hcs c hc).1
    simp only [hroot.root, expect_some, wp_bind, wp_pure, wp_readNode hblock, newFrom]
    rw [wp_allocNode, wp_setLink_root]
    refine hQ _ _ ?_
    have haddrs : addrs cs = [] := filterMap_eq_nil_iff.2 fun c hc => (hcs c hc).1
    refine { frame := ?_, root := rfl, rootLock := hroot.rootLock, node := ?_, children := ?_,
             distinct := by rw [haddrs]; exact nodup_nil, marked := ?_, clean := ?_, fresh := ?_ }
    · exact hroot.frame.trans (.of_eq rfl rfl rfl rfl)
    · rw [hdirty, hdc]
      refine ⟨_, addNode_nodes_self, ?_⟩
      rw [StaticVec.toList_collect, take_of_length_le (by simpa using children.length_le)]
      exact hentries
    · intro c hc
      obtain ⟨hnone, hd, hl, hun⟩ := hcs c hc
      simp only [ChildRep, hnone]
      exact ⟨hd, hl, hun⟩
    · exact fun c hc hd => by simp [(hcs c hc).2.1] at hd
    · exact fun _ _ => hdisk
    · intro x hx
      have hlt : s.tree.nextAddr < x := hx
      rw [setRoot_nodes, addNode_nodes_of_ne hlt.ne']
      exact hroot.fresh x hlt.le
  · simp only [NodeRoot.root H, wp_pure]
    exact hQ r s H
end Resolve
end WasabiOS
