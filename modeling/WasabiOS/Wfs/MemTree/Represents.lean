import WasabiOS.Wfs.MemTree.Children
import WasabiOS.Wfs.MemTree.Steps

/-!
# Wfs/MemTree/Represents — trees of one and two levels in memory

`LeafRoot` and `NodeRoot` say which nodes a tree whose root is a leave, or an inner node above
leaves, consists of: what is in memory, what is still on the device, and which locks are held.  They
carry the flags and the device pointers along, so that one invariant serves the map operations and the
flush: a leave that is not dirty is on the device as it is in memory.

Each step an operation takes on such a tree is a lemma from one of the predicates to the next.
A `FileView` says what a file node stands for.
-/

open Machinery Machinery.Keyed
namespace WasabiOS
open Store List
variable {d' l' : Bool} {fs : Files} {s1 : Store (Disk Block)}

/-- What the files of a tree stand for. -/
structure FileView (α : Type) where
  key : α → FileId
  /-- a file node in memory, which names its block list by a cell -/
  mem : (CellId → Option BlockListAccess) → FileNode → α
  /-- a file node whose cell is there, if the view looks at it; the first argument is the next free
  cell -/
  Held : CellId → FileNode → Prop
  /-- whether files may be on the device alone -/
  Loads : Prop
  /-- a file node on the device, as it will be loaded -/
  load : FsFileNode → α
  /-- a file node on the device holds the same file, in blocks that are not free -/
  OnDisk : BlockAllocator → Disk Block → FsFileNode → α → Prop
  key_mem : ∀ cells f, key (mem cells f) = f.id
  mem_congr : ∀ {cells cells' next f}, Held next f → (∀ c < next, cells' c = cells c) → mem cells' f = mem cells f
  held_mono : ∀ {next next' f}, Held next f → next ≤ next' → Held next' f
  mem_ofFs : ∀ {cells next g}, Loads →
    mem (Function.update cells next (some (.onDevice g.blockData))) (.ofFs g next) = load g
  held_ofFs : ∀ {next g}, Loads → Held (next + 1) (.ofFs g next)
  onDisk_load : ∀ {a d g}, Loads → OnDisk a d g (load g)

variable {α : Type} {s s' s0 : Store (Disk Block)} {V : FileView α} {r a : Addr} {c : Child α}
  {cs cs' pre post : List (Child α)} {ptr : Option (DevicePointer .treeNode)} {rl l d : Bool}

section Predicates
variable (V : FileView α)

/-- What tree operations leave alone: the device, the allocator, and the block lists of files that
were there. -/
structure Frame (s s' : Store (Disk Block)) : Prop where
  device : s'.device = s.device
  allocator : s'.allocator = s.allocator
  nextCell_le : s.tree.nextCell ≤ s'.tree.nextCell
  cells_old : ∀ c < s.tree.nextCell, s'.tree.cells c = s.tree.cells c

/-- The node at `a` is a leave with these files. -/
def LeaveAt (t : MemTree) (a : Addr) (parent : Option Addr) (files : List α) (dirty locked : Bool) :
    Prop :=
  ∃ fs : Files, t.nodes a = some (.leave parent fs dirty locked) ∧
    fs.toList.map (V.mem t.cells) = files ∧ ∀ f ∈ fs.toList, V.Held t.nextCell f

/-- The device holds a leave with the same files. -/
def LeaveOnDisk (s : Store (Disk Block)) (ptr : Option (DevicePointer .treeNode)) (files : List α) :
    Prop :=
  ∃ p gs, ptr = some p ∧ s.device.blocks p.lba = .treeNode (.leave gs) ∧
    List.Forall₂ (V.OnDisk s.allocator s.device) gs.toList files

/-- The device holds a leave that loads to these files. -/
def Unloaded (d : Disk Block) (ptr : Option (DevicePointer .treeNode)) (files : List α) : Prop :=
  V.Loads ∧ ∃ p gs, ptr = some p ∧ d.blocks p.lba = .treeNode (.leave gs) ∧ gs.toList.map V.load = files

/-- A child of the node at `r` is as described, in memory or on the device. -/
def ChildRep (s : Store (Disk Block)) (r : Addr) (c : Child α) : Prop :=
  match c.link.node with
  | some a => LeaveAt V s.tree a (some r) c.files c.dirty c.locked ∧
      (c.dirty = false → LeaveOnDisk V s c.link.devicePtr c.files)
  | none => c.dirty = false ∧ c.locked = false ∧ Unloaded V s.device c.link.devicePtr c.files

/-- The device holds an inner node with these children. -/
def NodeOnDisk (d : Disk Block) (ptr : Option (DevicePointer .treeNode)) (cs : List (Child α)) :
    Prop :=
  ∃ p children, ptr = some p ∧ d.blocks p.lba = .treeNode (.node children) ∧
    children.toList.map (fun c => (some c.1, c.2)) = cs.map fun c => (c.link.devicePtr, c.max)

/-- The addresses of the children that are in memory. -/
def addrs (cs : List (Child α)) : List Addr := cs.filterMap fun c => c.link.node

/-- The root, at `a`, is a leave.  `s0` is the state the operation started in. -/
structure LeafRoot (s0 s : Store (Disk Block)) (ptr : Option (DevicePointer .treeNode)) (a : Addr)
    (rootLocked locked dirty : Bool) (files : List α) : Prop where
  frame : Frame s0 s
  root : s.tree.root = { node := some a, devicePtr := ptr }
  rootLock : s.tree.rootLock = rootLocked
  leave : LeaveAt V s.tree a none files dirty locked
  clean : dirty = false → LeaveOnDisk V s ptr files
  fresh : ∀ x, s.tree.nextAddr ≤ x → s.tree.nodes x = none

/-- The root, at `r`, is an inner node above leaves. -/
structure NodeRoot (s0 s : Store (Disk Block)) (ptr : Option (DevicePointer .treeNode)) (r : Addr)
    (rootLocked locked dirty dirtyChildren : Bool) (cs : List (Child α)) : Prop where
  frame : Frame s0 s
  root : s.tree.root = { node := some r, devicePtr := ptr }
  rootLock : s.tree.rootLock = rootLocked
  node : ∃ children : Children, s.tree.nodes r = some (.node none children dirty dirtyChildren locked) ∧
      children.toList = cs.map Child.entry
  children : ∀ c ∈ cs, ChildRep V s r c
  distinct : (addrs cs).Nodup
  marked : ∀ c ∈ cs, c.dirty = true → dirtyChildren = true
  clean : dirty = false → (∀ c ∈ cs, c.dirty = false) → NodeOnDisk s.device ptr cs
  fresh : ∀ x, s.tree.nextAddr ≤ x → s.tree.nodes x = none

/-! ## Trees between operations -/

/-- A tree of one or two levels, as it is between operations. -/
inductive Shape (α : Type) where
  | leave (root : MemTreeLink) (files : List α) (dirty : Bool)
  | node (root : MemTreeLink) (children : List (Child α)) (dirty dirtyChildren : Bool)

namespace Shape

/-- The files of the tree, in order. -/
def entries : Shape α → List α
  | leave _ files _ => files
  | node _ cs _ _ => Child.entries cs

def Valid (key : α → FileId) : Shape α → Prop
  | leave _ files _ => Sorted key files ∧ files.length ≤ LEAVE_MAX_FILE_COUNT
  | node _ cs _ _ => Child.Valid key cs

/-- The blocks of the tree on the device. -/
def ptrs : Shape α → List (DevicePointer .treeNode)
  | leave root _ _ => root.devicePtr.toList
  | node root cs _ _ => root.devicePtr.toList ++ cs.filterMap fun c => c.link.devicePtr

/-- The shape with its root at an address. -/
def placed (a : Addr) : Shape α → Shape α
  | leave root files dirty => leave { root with node := some a } files dirty
  | node root cs dirty dirtyChildren => node { root with node := some a } cs dirty dirtyChildren
end Shape

/-- The root is not in memory. -/
structure RootUnloaded (s0 s : Store (Disk Block)) (root : MemTreeLink) (rootLocked : Bool) : Prop where
  loads : V.Loads
  frame : Frame s0 s
  root : s.tree.root = root
  rootLock : s.tree.rootLock = rootLocked
  fresh : ∀ x, s.tree.nextAddr ≤ x → s.tree.nodes x = none

/-- The tree has this shape, and only the lock of the root may be held. -/
def Rep (s0 s : Store (Disk Block)) (rootLocked : Bool) : Shape α → Prop
  | .leave root files dirty =>
    match root.node with
    | some a => LeafRoot V s0 s root.devicePtr a rootLocked false dirty files
    | none => RootUnloaded V s0 s root rootLocked ∧ dirty = false ∧ Unloaded V s.device root.devicePtr files
  | .node root cs dirty dirtyChildren =>
    match root.node with
    | some r => NodeRoot V s0 s root.devicePtr r rootLocked false dirty dirtyChildren cs
    | none => RootUnloaded V s0 s root rootLocked ∧ dirty = false ∧ dirtyChildren = false ∧
        NodeOnDisk s.device root.devicePtr cs ∧ ∀ c ∈ cs, c.link.node = none ∧ c.dirty = false ∧
          c.locked = false ∧ Unloaded V s.device c.link.devicePtr c.files
end Predicates

/-- What an unloaded root loads its children as. -/
theorem NodeOnDisk.entries {d : Disk Block} (h : NodeOnDisk d ptr cs) (hcs : ∀ c ∈ cs, c.link.node = none) :
    ∃ p children, ptr = some p ∧ d.blocks p.lba = .treeNode (.node children) ∧
      children.toList.map (fun c => (({ node := none, devicePtr := some c.1 } : MemTreeLink), c.2)) =
        cs.map Child.entry := by
  obtain ⟨p, children, hp, hblock, hmap⟩ := h
  have hentry : ∀ c ∈ cs, c.entry = ({ node := none, devicePtr := c.link.devicePtr }, c.max) := by
    rintro ⟨⟨node, q⟩, max, files, dirty, locked⟩ hc
    obtain rfl : node = none := hcs _ hc
    rfl
  refine ⟨p, children, hp, hblock, ?_⟩
  have := congrArg (List.map fun e : Option (DevicePointer .treeNode) × Option FileId =>
    (({ node := none, devicePtr := e.1 } : MemTreeLink), e.2)) hmap
  rw [map_map, map_map] at this
  rw [map_congr_left hentry]
  exact this

namespace Frame
variable {s'' : Store (Disk Block)} {f : FileNode}

theorem refl (s : Store (Disk Block)) : Frame s s := ⟨rfl, rfl, le_rfl, fun _ _ => rfl⟩

theorem trans (h : Frame s s') (h' : Frame s' s'') : Frame s s'' where
  device := h'.device.trans h.device
  allocator := h'.allocator.trans h.allocator
  nextCell_le := h.nextCell_le.trans h'.nextCell_le
  cells_old c hc := (h'.cells_old c (hc.trans_le h.nextCell_le)).trans (h.cells_old c hc)

/-- Files keep their meaning. -/
theorem mem_eq (h : Frame s s') (hf : V.Held s.tree.nextCell f) : V.mem s'.tree.cells f = V.mem s.tree.cells f :=
  V.mem_congr hf h.cells_old

theorem map_mem_eq {fs : List FileNode} (h : Frame s s') (hfs : ∀ f ∈ fs, V.Held s.tree.nextCell f) :
    fs.map (V.mem s'.tree.cells) = fs.map (V.mem s.tree.cells) :=
  map_congr_left fun f hf => h.mem_eq (hfs f hf)

theorem held (h : Frame s s') (hf : V.Held s.tree.nextCell f) : V.Held s'.tree.nextCell f :=
  V.held_mono hf h.nextCell_le

/-- A state that differs in nodes, links and locks only. -/
theorem of_eq (hd : s'.device = s.device) (ha : s'.allocator = s.allocator)
    (hc : s'.tree.cells = s.tree.cells) (hn : s'.tree.nextCell = s.tree.nextCell) : Frame s s' :=
  ⟨hd, ha, hn.ge, fun _ _ => by rw [hc]⟩
end Frame

/-! ## Children and the memory around them -/

section Memory
variable {d : Child α} {o : Option MemTreeNode}

@[simp] theorem addrs_append : addrs (pre ++ post) = addrs pre ++ addrs post := filterMap_append

theorem mem_addrs : a ∈ addrs cs ↔ ∃ c ∈ cs, c.link.node = some a := mem_filterMap

theorem addrs_cons_some (h : c.link.node = some a) : addrs (c :: cs) = a :: addrs cs := filterMap_cons_some h

theorem addrs_cons_none (h : c.link.node = none) : addrs (c :: cs) = addrs cs := filterMap_cons_none h

/-- Replacing a child at its address keeps the addresses. -/
theorem addrs_replace (h : d.link.node = c.link.node) : addrs (pre ++ d :: post) = addrs (pre ++ c :: post) := by
  simp [addrs, filterMap_cons, h]

theorem ne_of_nodup (h : (addrs (pre ++ c :: post)).Nodup) (hc : c.link.node = some a)
    (hd : d ∈ pre ∨ d ∈ post) : d.link.node ≠ some a := by
  intro hda
  rw [addrs_append, addrs_cons_some hc, nodup_middle, nodup_cons, mem_append] at h
  exact h.1 (hd.imp (fun hd => mem_addrs.2 ⟨d, hd, hda⟩) fun hd => mem_addrs.2 ⟨d, hd, hda⟩)

theorem LeaveAt.congr {t t' : MemTree} {parent : Option Addr} {files : List α} {dirty locked : Bool}
    (h : LeaveAt V t a parent files dirty locked) (hn : t'.nodes a = t.nodes a)
    (hc : t'.cells = t.cells) (hx : t'.nextCell = t.nextCell) :
    LeaveAt V t' a parent files dirty locked := by
  obtain ⟨fs, hfs, hfiles, hheld⟩ := h
  exact ⟨fs, hn.trans hfs, by rw [hc]; exact hfiles, by rw [hx]; exact hheld⟩

/-- A child does not notice changes at other addresses. -/
theorem ChildRep.congr (h : ChildRep V s r c) (hn : ∀ a, c.link.node = some a → s'.tree.nodes a = s.tree.nodes a)
    (hc : s'.tree.cells = s.tree.cells) (hx : s'.tree.nextCell = s.tree.nextCell)
    (hd : s'.device = s.device) (ha : s'.allocator = s.allocator) : ChildRep V s' r c := by
  unfold ChildRep LeaveOnDisk at h ⊢
  rw [hd, ha]
  rcases hl : c.link.node with _ | a
  · simpa only [hl] using h
  · simp only [hl] at h ⊢
    exact ⟨h.1.congr (hn a hl) hc hx, h.2⟩

theorem ChildRep.leave (h : ChildRep V s r c) (ha : c.link.node = some a) :
    LeaveAt V s.tree a (some r) c.files c.dirty c.locked := by
  simp only [ChildRep, ha] at h
  exact h.1

theorem ChildRep.clean (h : ChildRep V s r c) (ha : c.link.node = some a) (hd : c.dirty = false) :
    LeaveOnDisk V s c.link.devicePtr c.files := by
  simp only [ChildRep, ha] at h
  exact h.2 hd

theorem ChildRep.of_leave (ha : c.link.node = some a) (h : LeaveAt V s.tree a (some r) c.files c.dirty c.locked)
    (hd : c.dirty = false → LeaveOnDisk V s c.link.devicePtr c.files) :
    ChildRep V s r c := by
  simp only [ChildRep, ha]
  exact ⟨h, hd⟩
end Memory

/-! ## Changing a two level tree -/

namespace NodeRoot
variable {dc : Bool}

/-- Start to count what changes from here. -/
theorem rebase (H : NodeRoot V s0 s ptr r rl l d dc cs) : NodeRoot V s s ptr r rl l d dc cs :=
  { H with frame := .refl s }

theorem after (H : NodeRoot V s1 s ptr r rl l d dc cs) (h : Frame s0 s1) : NodeRoot V s0 s ptr r rl l d dc cs :=
  { H with frame := h.trans H.frame }

section
variable (H : NodeRoot V s0 s ptr r rl l d dc cs)
include H

theorem ne_root (hc : ChildRep V s r c) (ha : c.link.node = some a) : a ≠ r := by
  rintro rfl
  obtain ⟨fs, hfs, -⟩ := hc.leave ha
  obtain ⟨children, hr, -⟩ := H.node
  simp [hr] at hfs

theorem lt_next (hc : ChildRep V s r c) (ha : c.link.node = some a) : a < s.tree.nextAddr := by
  obtain ⟨fs, hfs, -⟩ := hc.leave ha
  by_contra hlt
  simp [H.fresh a (not_lt.1 hlt)] at hfs

theorem root_lt_next : r < s.tree.nextAddr := by
  obtain ⟨children, hr, -⟩ := H.node
  by_contra hlt
  simp [H.fresh r (not_lt.1 hlt)] at hr
end

section
variable (H : NodeRoot V s0 s ptr r rl l d dc (pre ++ c :: post))
include H

theorem child : ChildRep V s r c := H.children c (mem_focus.2 (.inl rfl))

/-- The leave of one child is overwritten. -/
theorem setChild (c' : Child α) (ha : c.link.node = some a) (hlink : c'.link = c.link) (hmax : c'.max = c.max)
    (hfs : fs.toList.map (V.mem s.tree.cells) = c'.files)
    (hheld : ∀ f ∈ fs.toList, V.Held s.tree.nextCell f) (hmark : c'.dirty = true → dc = true)
    (hclean : c'.dirty = false → c.dirty = false ∧ c'.files = c.files) :
    NodeRoot V s0 (s.setNode a (some (.leave (some r) fs c'.dirty c'.locked))) ptr r rl l d dc (pre ++ c' :: post) :=
  { H with
    frame := { H.frame with }
    node := by
      obtain ⟨children, hr, hchildren⟩ := H.node
      refine ⟨children, ?_, by simpa [Child.entry, hlink, hmax] using hchildren⟩
      rw [setNode_nodes_of_ne (H.ne_root H.child ha).symm, hr]
    children := fun e he => by
      rcases mem_focus.1 he with rfl | he
      · refine .of_leave (hlink ▸ ha) ⟨fs, setNode_nodes_self, hfs, hheld⟩ fun hd => ?_
        obtain ⟨hcd, hfiles⟩ := hclean hd
        rw [hlink, hfiles]
        exact H.child.clean ha hcd
      · have hne := ne_of_nodup H.distinct ha he
        exact (H.children e (mem_focus.2 (.inr he))).congr
          (fun b hb => setNode_nodes_of_ne fun hba => hne (hba ▸ hb)) rfl rfl rfl rfl
    distinct := by rw [addrs_replace (congrArg _ hlink)]; exact H.distinct
    marked := fun e he hd => by
      rcases mem_focus.1 he with rfl | he
      · exact hmark hd
      · exact H.marked e (mem_focus.2 (.inr he)) hd
    clean := fun hd hall => by
      have hc := hclean (hall c' (mem_focus.2 (.inl rfl)))
      obtain ⟨p, children, hp, hb, hmap⟩ := H.clean hd fun e he => by
        rcases mem_focus.1 he with rfl | he
        · exact hc.1
        · exact hall e (mem_focus.2 (.inr he))
      exact ⟨p, children, hp, hb, by simpa [hlink, hmax] using hmap⟩
    fresh := fun x hx => by
      rw [setNode_nodes_of_ne, H.fresh x hx]
      exact (H.lt_next H.child ha).trans_le hx |>.ne' }
end

section
variable (H : NodeRoot V s0 s ptr r rl l d dc cs)
include H

/-- The inner node itself is overwritten. -/
theorem setSelf {dc' : Bool} {children' : Children}
    (hchildren : children'.toList = cs'.map Child.entry) (hcs : ∀ c ∈ cs', ChildRep V s r c)
    (hdistinct : (addrs cs').Nodup) (hmark : ∀ c ∈ cs', c.dirty = true → dc' = true)
    (hclean : d' = false → (∀ c ∈ cs', c.dirty = false) → NodeOnDisk s.device ptr cs') :
    NodeRoot V s0 (s.setNode r (some (.node none children' d' dc' l'))) ptr r rl l' d' dc' cs' :=
  { H with
    frame := { H.frame with }
    node := ⟨children', setNode_nodes_self, hchildren⟩
    children := fun c hc => (hcs c hc).congr (fun _ ha => setNode_nodes_of_ne (H.ne_root (hcs c hc) ha)) rfl rfl rfl rfl
    distinct := hdistinct
    marked := hmark
    clean := hclean
    fresh := fun x hx => by rw [setNode_nodes_of_ne (H.root_lt_next.trans_le hx).ne', H.fresh x hx] }

/-- A box outside of the tree is dropped. -/
theorem dropOther (ha : a ∉ addrs cs) (har : a ≠ r) : NodeRoot V s0 (s.setNode a none) ptr r rl l d dc cs := { H with
    frame := { H.frame with }
    node := by
      obtain ⟨children, hr, hchildren⟩ := H.node
      exact ⟨children, by rw [setNode_nodes_of_ne har.symm, hr], hchildren⟩
    children := fun c hc => (H.children c hc).congr (fun b hb => setNode_nodes_of_ne fun hba =>
      ha (mem_addrs.2 ⟨c, hc, hba ▸ hb⟩)) rfl rfl rfl rfl
    fresh := fun x hx => by
      rw [setNode_nodes]
      split
      · rfl
      · exact H.fresh x hx }

/-- A node is put into a new box. -/
theorem addNode (n : MemTreeNode) : NodeRoot V s0 (s.addNode n) ptr r rl l d dc cs := { H with
    frame := { H.frame with }
    node := by
      obtain ⟨children, hr, hchildren⟩ := H.node
      exact ⟨children, by rw [addNode_nodes_of_ne H.root_lt_next.ne, hr], hchildren⟩
    children := fun c hc => (H.children c hc).congr (fun _ hb => addNode_nodes_of_ne
      (H.lt_next (H.children c hc) hb).ne) rfl rfl rfl rfl
    fresh := fun x hx => by
      have hlt : s.tree.nextAddr < x := hx
      rw [addNode_nodes_of_ne hlt.ne', H.fresh x hlt.le] }

theorem setRootLock (rl' : Bool) : NodeRoot V s0 (s.setRootLock rl') ptr r rl' l d dc cs := { H with
    frame := { H.frame with }
    rootLock := rfl
    children := fun c hc => (H.children c hc).congr (fun _ _ => rfl) rfl rfl rfl rfl }
end
end NodeRoot

/-! ## Changing a leave that is the root -/

namespace LeafRoot
variable {files files' : List α}

/-- Start to count what changes from here. -/
theorem rebase (H : LeafRoot V s0 s ptr a rl l d files) : LeafRoot V s s ptr a rl l d files :=
  { H with frame := .refl s }

theorem after (H : LeafRoot V s1 s ptr a rl l d files) (h : Frame s0 s1) : LeafRoot V s0 s ptr a rl l d files :=
  { H with frame := h.trans H.frame }

section
variable (H : LeafRoot V s0 s ptr a rl l d files)
include H

theorem lt_next : a < s.tree.nextAddr := by
  obtain ⟨fs, hfs, -⟩ := H.leave
  by_contra hlt
  simp [H.fresh a (not_lt.1 hlt)] at hfs

theorem setSelf (hfs : fs.toList.map (V.mem s.tree.cells) = files') (hheld : ∀ f ∈ fs.toList, V.Held s.tree.nextCell f)
    (hclean : d' = false → d = false ∧ files' = files) :
    LeafRoot V s0 (s.setNode a (some (.leave none fs d' l'))) ptr a rl l' d' files' :=
  { H with
    frame := { H.frame with }
    leave := ⟨fs, setNode_nodes_self, hfs, hheld⟩
    clean := fun hd => by
      obtain ⟨hd, rfl⟩ := hclean hd
      exact H.clean hd
    fresh := fun x hx => by rw [setNode_nodes_of_ne (H.lt_next.trans_le hx).ne', H.fresh x hx] }

theorem setRootLock (rl' : Bool) : LeafRoot V s0 (s.setRootLock rl') ptr a rl' l d files := { H with
    frame := { H.frame with }
    rootLock := rfl
    leave := H.leave.congr rfl rfl rfl }
end
end LeafRoot

theorem Rep.setRootLock {sh : Shape α} (H : Rep V s0 s rl sh) (rl' : Bool) : Rep V s0 (s.setRootLock rl') rl' sh := by
  rcases sh with ⟨⟨_ | a, ptr⟩, files, dirty⟩ | ⟨⟨_ | r, ptr⟩, cs, dirty, dc⟩
  · obtain ⟨h, hrest⟩ := H
    exact ⟨⟨h.loads, { h.frame with }, h.root, rfl, h.fresh⟩, hrest⟩
  · exact LeafRoot.setRootLock H rl'
  · obtain ⟨h, hrest⟩ := H
    exact ⟨⟨h.loads, { h.frame with }, h.root, rfl, h.fresh⟩, hrest⟩
  · exact NodeRoot.setRootLock H rl'

namespace Rep
variable {s1 : Store (Disk Block)} {sh : Shape α}

theorem frame (H : Rep V s0 s rl sh) : Frame s0 s := by
  rcases sh with ⟨⟨_ | a, ptr⟩, files, dirty⟩ | ⟨⟨_ | r, ptr⟩, cs, dirty, dc⟩
  · exact H.1.frame
  · exact LeafRoot.frame H
  · exact H.1.frame
  · exact NodeRoot.frame H

theorem rebase (H : Rep V s0 s rl sh) : Rep V s s rl sh := by
  rcases sh with ⟨⟨_ | a, ptr⟩, files, dirty⟩ | ⟨⟨_ | r, ptr⟩, cs, dirty, dc⟩
  · exact ⟨{ H.1 with frame := .refl s }, H.2⟩
  · exact LeafRoot.rebase H
  · exact ⟨{ H.1 with frame := .refl s }, H.2⟩
  · exact NodeRoot.rebase H

theorem after (H : Rep V s1 s rl sh) (h : Frame s0 s1) : Rep V s0 s rl sh := by
  rcases sh with ⟨⟨_ | a, ptr⟩, files, dirty⟩ | ⟨⟨_ | r, ptr⟩, cs, dirty, dc⟩
  · exact ⟨{ H.1 with frame := h.trans H.1.frame }, H.2⟩
  · exact LeafRoot.after H h
  · exact ⟨{ H.1 with frame := h.trans H.1.frame }, H.2⟩
  · exact NodeRoot.after H h
end Rep
end WasabiOS
