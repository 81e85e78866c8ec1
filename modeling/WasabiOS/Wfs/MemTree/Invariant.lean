import WasabiOS.Wfs.MemTree.Insert

/-!
# Wfs/MemTree/Invariant — what a tree looks like from its links

`RepInv` is the representation invariant of a tree in memory, of any height: what the comments and
`assert_valid_full` ask of it.  `Store.overflows` asks whether an insert would have to split a node
whose parent is full, which is what the tree does not survive.

Both are stated over the links; a tree of one or two levels that is represented satisfies the one
(`Rep.repInv`), and the other tells whether its shape has room (`Rep.hasRoom`).
-/

open Machinery Machinery.Keyed
namespace WasabiOS
open List
variable {α : Type} {V : FileView α} {s0 s : Store (Disk Block)} {sh : Shape α}
  {c : Child α} {cs post pre : List (Child α)} {files : List α} {key : α → FileId}

/-! ## The representation invariant -/

namespace MemTree

/-- The children of an inner node whose ids lie in `(lo, hi]`: separators increase and exactly the
last child has none, and `P` holds of every child with the range its separators give it. -/
def Ranges (P : (lo hi : ℕ) → MemTreeLink → Prop) : (lo hi : ℕ) → List (MemTreeLink × Option FileId) → Prop
  | _, _, [] => False
  | lo, hi, (link, max) :: rest =>
    match max with
    | none => rest = [] ∧ P lo hi link
    | some m => lo < m.get ∧ P lo m.get link ∧ Ranges P m.get hi rest

/-- The node at `a` is the root of a subtree of this height whose ids lie in `(lo, hi]`: all leaves
are at the same depth and sorted, every node points at its parent, is unlocked, and, below the root,
at least half full. -/
def Subtree (t : MemTree) : (height : ℕ) → (parent : Option Addr) → (lo hi : ℕ) → Addr → Prop
  | 0, parent, lo, hi, a => ∃ (files : Files) (dirty : Bool), t.nodes a = some (.leave parent files dirty false) ∧
      (parent.isSome → LEAVE_MAX_FILE_COUNT / 2 ≤ files.len) ∧ Sorted FileNode.id files.toList ∧
      ∀ f ∈ files.toList, lo < f.id.get ∧ f.id.get ≤ hi
  | height + 1, parent, lo, hi, a => ∃ (children : Children) (dirty dirtyChildren : Bool),
      t.nodes a = some (.node parent children dirty dirtyChildren false) ∧
      (parent.isSome → NODE_MAX_CHILD_COUNT / 2 ≤ children.len) ∧
      Ranges (fun lo hi link => ∃ b, link.node = some b ∧ Subtree t height (some a) lo hi b) lo hi children.toList

/-- The representation invariant of a tree that is in memory. -/
def RepInv (t : MemTree) : Prop :=
  t.rootLock = false ∧ ∃ height r, t.root.node = some r ∧ t.Subtree height none 0 FileId.MAX.get r

/-- Children in a chain are in their ranges. -/
theorem ranges_of_chained {P : (lo hi : ℕ) → MemTreeLink → Prop} :
    ∀ {lo : ℕ} {cs : List (Child α)}, Child.Chained key lo cs →
      (∀ c ∈ cs, ∀ lo hi, (∀ f ∈ c.files, lo < (key f).get ∧ (key f).get ≤ hi) → P lo hi c.link) →
      Ranges P lo FileId.MAX.get (cs.map Child.entry)
  | _, [], h, _ => h.elim
  | lo, c :: cs, h, hP => by
    have hc := hP c mem_cons_self
    simp only [map_cons, Child.entry, Ranges]
    rcases hm : c.max with _ | m
    · obtain ⟨hfiles, rfl⟩ := (Child.chained_cons_none hm).1 h
      exact ⟨rfl, hc _ _ fun f hf => ⟨hfiles f hf, FileId.le_MAX _⟩⟩
    · obtain ⟨hfiles, hlo, hcs⟩ := (Child.chained_cons_some hm).1 h
      exact ⟨hlo, hc _ _ hfiles, ranges_of_chained hcs fun d hd => hP d (mem_cons_of_mem c hd)⟩

/-- Where a child without separator is not the last one, the ranges are broken. -/
theorem not_ranges_of_none {P : (lo hi : ℕ) → MemTreeLink → Prop} {link : MemTreeLink}
    {e : MemTreeLink × Option FileId} {post : List (MemTreeLink × Option FileId)} :
    ∀ {lo hi : ℕ} {pre : List (MemTreeLink × Option FileId)}, ¬ Ranges P lo hi (pre ++ (link, none) :: e :: post)
  | _, _, [], h => by cases h.1
  | _, _, (_, none) :: pre, h => by simp [Ranges] at h
  | _, _, (_, some _) :: _, h => not_ranges_of_none h.2.2
end MemTree

theorem LeaveAt.subtree {a : Addr} {parent : Option Addr} {dirty : Bool} {lo hi : ℕ}
    (h : LeaveAt V s.tree a parent files dirty false) (hs : Sorted V.key files)
    (hhalf : parent.isSome → LEAVE_MAX_FILE_COUNT / 2 ≤ files.length)
    (hfiles : ∀ f ∈ files, lo < (V.key f).get ∧ (V.key f).get ≤ hi) :
    s.tree.Subtree 0 parent lo hi a := by
  obtain ⟨fs, hfs, rfl, -⟩ := h
  refine ⟨fs, dirty, hfs, by simpa [StaticVec.len] using hhalf, V.sorted_of_map.1 hs, fun f hf => ?_⟩
  simpa [V.key_mem] using hfiles _ (mem_map_of_mem hf)

/-- A represented tree that is all in memory satisfies the representation invariant. -/
theorem Rep.repInv (H : Rep V s0 s false sh) (hv : sh.Valid V.key) (hloads : ¬ V.Loads) :
    s.tree.RepInv := by
  rcases sh with ⟨⟨_ | a, ptr⟩, files, dirty⟩ | ⟨⟨_ | r, ptr⟩, cs, dirty, dc⟩
  · exact absurd H.1.loads hloads
  · refine ⟨LeafRoot.rootLock H, 0, a, by rw [LeafRoot.root H], ?_⟩
    refine (LeafRoot.leave H).subtree hv.1 (by simp) fun f _ => ⟨(V.key f).pos, FileId.le_MAX _⟩
  · exact absurd H.1.loads hloads
  · obtain ⟨children, hr, hchildren⟩ := NodeRoot.node H
    refine ⟨NodeRoot.rootLock H, 1, r, by rw [NodeRoot.root H], children, dirty, dc, hr, by simp, ?_⟩
    rw [hchildren]
    refine MemTree.ranges_of_chained hv.chained fun c hc lo hi hfiles => ?_
    have hrep := NodeRoot.children H c hc
    rcases hnode : c.link.node with _ | b
    · simp only [ChildRep, hnode] at hrep
      exact absurd hrep.2.2.1 hloads
    · have hleave := hrep.leave hnode
      rw [hv.unlocked c hc] at hleave
      exact ⟨b, rfl, hleave.subtree (hv.fits c hc).sorted (fun _ => (hv.fits c hc).half) hfiles⟩

/-! ## Room for an insert -/

/-- What a link leads to: the ids of a leave, or the children of an inner node. -/
inductive NodeView where
  | leave (ids : List FileId)
  | node (children : List (MemTreeLink × Option FileId))

namespace Store

/-- The node behind a link, in memory or else on the device. -/
def view (s : Store (Disk Block)) (link : MemTreeLink) : Option NodeView :=
  match link.node with
  | some a =>
    match s.tree.nodes a with
    | some (.leave _ files _ _) => some (.leave (files.toList.map FileNode.id))
    | some (.node _ children _ _ _) => some (.node children.toList)
    | none => none
  | none =>
    match link.devicePtr.map fun p => s.device.blocks p.lba with
    | some (.treeNode (.leave files)) => some (.leave (files.toList.map FsFileNode.id))
    | some (.treeNode (.node children)) => some (.node (children.toList.map fun c =>
        ({ node := none, devicePtr := some c.1 }, c.2)))
    | _ => none

/-- Below `link`, `id` belongs into a full leave that lacks it and whose parent is full as well. -/
def overflowsAt (s : Store (Disk Block)) (id : FileId) : (fuel : ℕ) → (parentFull : Bool) → MemTreeLink → Bool
  | 0, _, _ => false
  | fuel + 1, parentFull, link =>
    match s.view link with
    | some (.leave ids) =>
      parentFull && decide (ids.length = LEAVE_MAX_FILE_COUNT) && !decide (id ∈ ids)
    | some (.node children) =>
      match children.find? fun c => id ≤ c.2.getD FileId.MAX with
      | some child =>
        s.overflowsAt id fuel (decide (children.length = NODE_MAX_CHILD_COUNT)) child.1
      | none => false
    | none => false

/-- To insert a file with this id, a full leave below a full inner node has to be split. -/
def overflows (s : Store (Disk Block)) (id : FileId) : Bool :=
  s.overflowsAt id (s.tree.nextAddr + LBA.addressCount + 1) false s.tree.root
end Store

variable {id : FileId} {root : MemTreeLink} {d dc : Bool}

theorem FileView.key_load (h : V.Loads) (g : FsFileNode) : V.key (V.load g) = g.id := by
  rw [← @FileView.mem_ofFs α V (fun _ => none) 0 g h, V.key_mem, FileNode.ofFs_id]

theorem ChildRep.view {r : Addr} (h : ChildRep V s r c) : s.view c.link = some (.leave (c.files.map V.key)) := by
  rcases hnode : c.link.node with _ | a
  · simp only [ChildRep, hnode] at h
    obtain ⟨-, -, hloads, p, gs, hp, hblock, hgs⟩ := h
    simp [Store.view, hnode, hp, hblock, ← hgs, Function.comp_def, V.key_load hloads]
  · obtain ⟨fs, hfs, hfiles, -⟩ := h.leave hnode
    simp [Store.view, hnode, hfs, ← hfiles, Function.comp_def, V.key_mem]

/-- The root of a two level tree leads to its children, and they to their files. -/
theorem Rep.view_node (H : Rep V s0 s false (.node root cs d dc)) :
    s.view s.tree.root = some (.node (cs.map Child.entry)) ∧
      ∀ c ∈ cs, s.view c.link = some (.leave (c.files.map V.key)) := by
  obtain ⟨_ | r, ptr⟩ := root
  · obtain ⟨hroot, -, -, hdisk, hcs⟩ := H
    obtain ⟨p, children, rfl, hblock, hentries⟩ := hdisk.entries fun c hc => (hcs c hc).1
    refine ⟨by simp [Store.view, hroot.root, hblock, hentries], fun c hc => ?_⟩
    obtain ⟨hnode, hd, hl, hun⟩ := hcs c hc
    have hrep : ChildRep V s 0 c := by simp only [ChildRep, hnode]; exact ⟨hd, hl, hun⟩
    exact hrep.view
  · obtain ⟨children, hr, hchildren⟩ := NodeRoot.node H
    refine ⟨by simp [Store.view, NodeRoot.root H, hr, hchildren], fun c hc => ?_⟩
    exact (NodeRoot.children H c hc).view

/-- There are no more children than an inner node holds. -/
theorem Rep.length_le (H : Rep V s0 s false (.node root cs d dc)) : cs.length ≤ NODE_MAX_CHILD_COUNT := by
  obtain ⟨_ | r, ptr⟩ := root
  · obtain ⟨-, -, -, hdisk, hcs⟩ := H
    obtain ⟨p, children, -, -, hentries⟩ := hdisk.entries fun c hc => (hcs c hc).1
    have := congrArg List.length hentries
    rw [length_map, length_map] at this
    exact this ▸ children.length_le
  · obtain ⟨children, -, hchildren⟩ := NodeRoot.node H
    have := congrArg List.length hchildren
    rw [length_map] at this
    exact this ▸ children.length_le

/-- The walk of an id takes the child that can hold it. -/
theorem Child.Route.find? (h : Child.Route id cs pre c post) (hv : Child.Valid key cs) :
    (cs.map Child.entry).find? (fun e => id ≤ e.2.getD FileId.MAX) = some c.entry := by
  obtain ⟨rfl, hfloor, hle⟩ := h
  rw [map_append, find?_append, find?_eq_none.2]
  · simp [Child.entry, hle]
  · intro e he
    obtain ⟨d, hd, rfl⟩ := mem_map.1 he
    obtain ⟨m, hm, hmle⟩ := (Child.chained_append.1 hv.chained).1.max_le hd
    simpa [Child.entry, hm, FileId.lt_def] using hmle.trans_lt hfloor

/-- A two level tree overflows if the child that can hold the id is full and so is the root. -/
theorem Rep.overflows_node (H : Rep V s0 s false (.node root cs d dc)) (hv : Child.Valid V.key cs)
    (hroute : Child.Route id cs pre c post) :
    s.overflows id = true ↔ cs.length = NODE_MAX_CHILD_COUNT ∧
      c.files.length = LEAVE_MAX_FILE_COUNT ∧ ∀ f ∈ c.files, V.key f ≠ id := by
  have hfuel : ∃ fuel, s.tree.nextAddr + LBA.addressCount + 1 = fuel + 2 :=
    ⟨s.tree.nextAddr + (LBA.addressCount - 1), by simp [LBA.addressCount, u64Size]⟩
  obtain ⟨fuel, hfuel⟩ := hfuel
  obtain ⟨hview, hchildren⟩ := H.view_node
  have hc : s.view c.entry.1 = some (.leave (c.files.map V.key)) := hchildren c (hroute.eq ▸ mem_focus.2 (.inl rfl))
  rw [Store.overflows, hfuel]
  simp only [Store.overflowsAt, hview, hroute.find? hv, hc]
  simp [and_assoc]

/-- The root has no parent that could be full. -/
theorem Rep.overflows_leave (H : Rep V s0 s false (.leave root files d)) : s.overflows id = false := by
  have hview : ∃ ids, s.view s.tree.root = some (.leave ids) := by
    obtain ⟨_ | a, ptr⟩ := root
    · obtain ⟨hroot, -, -, p, gs, rfl, hblock, -⟩ := H
      exact ⟨gs.toList.map FsFileNode.id, by simp [Store.view, hroot.root, hblock]⟩
    · obtain ⟨fs, hfs, -⟩ := LeafRoot.leave H
      exact ⟨fs.toList.map FileNode.id, by simp [Store.view, LeafRoot.root H, hfs]⟩
  obtain ⟨ids, hview⟩ := hview
  rw [Store.overflows, Store.overflowsAt, hview]
  rfl

/-- A represented tree that does not overflow has room. -/
theorem Rep.hasRoom (H : Rep V s0 s false sh) (hv : sh.Valid V.key) (h : s.overflows id = false) :
    sh.HasRoom V.key id := by
  rcases sh with ⟨root, files, d⟩ | ⟨root, cs, d, dc⟩
  · trivial
  · intro pre c post hroute hfiles hfull
    have hnot : ¬ cs.length = NODE_MAX_CHILD_COUNT := fun hlen => by
      rw [(H.overflows_node hv hroute).2 ⟨hlen, hfull, hfiles⟩] at h
      cases h
    exact lt_of_le_of_ne H.length_le hnot
end WasabiOS
