import WasabiOS.Wfs.MemTree.Content

/-!
# Wfs/MemTree/Lookup — finding a file in a tree that is partly loaded

`find` loads what it needs on its way down.  Whatever part of a search tree is in memory, the lookup
answers as the whole tree does, loaded or not, and changes nothing but how much of it is loaded
(`find_answers`).  `Unfolds` is what a walk may do to the tree: every link still leads to the files it led
to, and every node keeps its parent and its links.
-/

open Machinery Prog Machinery.Keyed
namespace WasabiOS
open List hiding lookup
open Store MemTreeNode
variable {D : Type} {a b : Addr} {dev : D} {n : MemTreeNode} {s : Store D}

/-! ## Trees that unfold -/

/-- A node has a link to the node at `b`. -/
def MemTreeNode.LeadsTo (n : MemTreeNode) (b : Addr) : Prop := ∃ link ∈ n.links, link.node = some b

namespace MemTree

/-- The node at `a` points at the node that holds the link to it; it has no parent if that is the link
to the root. -/
def Hangs (t : MemTree) (a : Addr) (n : MemTreeNode) : Prop :=
  match n.getParent with
  | none => t.root.node = some a
  | some p => ∃ m, t.nodes p = some m ∧ m.LeadsTo a

/-- Addresses and cells that are in use have been handed out. -/
structure Sane (t : MemTree) : Prop where
  bound : ∀ a n, t.nodes a = some n → a < t.nextAddr
  cells : ∀ a p files d l, t.nodes a = some (.leave p files d l) → ∀ f ∈ files.toList, f.blockData < t.nextCell

theorem Sane.fresh {t : MemTree} (h : t.Sane) : t.nodes t.nextAddr = none := by
  cases hn : t.nodes t.nextAddr with
  | none => rfl
  | some n => exact absurd (h.bound _ n hn) (lt_irrefl _)

theorem Sane.setNode {n' : MemTreeNode} (h : s.tree.Sane) (ha : s.tree.nodes a = some n)
    (hcells : ∀ p files d l, n' = .leave p files d l → ∀ f ∈ files.toList, f.blockData < s.tree.nextCell) :
    (s.setNode a (some n')).tree.Sane := by
  refine ⟨fun x m hx => ?_, fun x p files d l hx => ?_⟩
  all_goals
    rw [setNode_nodes] at hx
    split at hx
  · exact ‹x = a› ▸ h.bound a n ha
  · exact h.bound x m hx
  · exact hcells p files d l (Option.some.inj hx)
  · exact h.cells x p files d l hx
end MemTree

/-- The link to a node in memory. -/
def MemTreeLink.at (a : Addr) : MemTreeLink := { node := some a, devicePtr := none }

variable [BlockDevice D Block] [BlockContents D Block]
open BlockContents (blocks)

theorem Store.peek_setNode {o : Option MemTreeNode} {link : MemTreeLink}
    (h : link.node ≠ some a) : (s.setNode a o).peek link = s.peek link := by
  rcases hnode : link.node with _ | x
  · rw [peek_none hnode, peek_none hnode, setNode_device]
  · rw [peek_some hnode, peek_some hnode, setNode_nodes_of_ne fun heq : x = a => h (heq ▸ hnode), setNode_cells]

/-- **More of the tree is in memory**, and nothing else has changed. -/
structure Unfolds (s s' : Store D) : Prop where
  sane : s'.tree.Sane
  blocks_eq : blocks s'.device = blocks s.device
  allocator_eq : s'.allocator = s.allocator
  denotes : ∀ {height lo hi link files}, s.Denotes height lo hi link files → s'.Denotes height lo hi link files
  root : ∀ {height lo hi files}, s.Denotes height lo hi s.tree.root files → s'.Denotes height lo hi s'.tree.root files
  rootLink : ∀ {a}, s.tree.root.node = some a → s'.tree.root.node = some a
  node : ∀ {a n}, s.tree.nodes a = some n → ∃ n', s'.tree.nodes a = some n' ∧
    n'.getParent = n.getParent ∧ ∀ b, n.LeadsTo b → n'.LeadsTo b
  hangs : ∀ {a n}, s.tree.nodes a = none → s'.tree.nodes a = some n → s'.tree.Hangs a n

namespace Unfolds
variable {s s' s'' : Store D} {a : Addr} {n n' : MemTreeNode}

theorem trans (h : Unfolds s s') (h' : Unfolds s' s'') : Unfolds s s'' where
  sane := h'.sane
  blocks_eq := h'.blocks_eq.trans h.blocks_eq
  allocator_eq := h'.allocator_eq.trans h.allocator_eq
  denotes hd := h'.denotes (h.denotes hd)
  root hd := h'.root (h.root hd)
  rootLink hr := h'.rootLink (h.rootLink hr)
  node hn := by
    obtain ⟨n', hn', hparent, hlinks⟩ := h.node hn
    obtain ⟨n'', hn'', hparent', hlinks'⟩ := h'.node hn'
    exact ⟨n'', hn'', hparent'.trans hparent, fun b hb => hlinks' b (hlinks b hb)⟩
  hangs := by
    intro a n hnone hn
    cases hmid : s'.tree.nodes a with
    | none => exact h'.hangs hmid hn
    | some m =>
      -- loaded on the first part of the way, and what it hangs on is still there
      have hm := h.hangs hnone hmid
      obtain ⟨n', hn', hparent, -⟩ := h'.node hmid
      obtain rfl : n' = n := Option.some.inj (hn'.symm.trans hn)
      unfold MemTree.Hangs at hm ⊢
      rw [hparent]
      cases hp : m.getParent with
      | none =>
        rw [hp] at hm
        exact h'.rootLink hm
      | some p =>
        rw [hp] at hm
        obtain ⟨q, hq, hleads⟩ := hm
        obtain ⟨q', hq', -, hlinks⟩ := h'.node hq
        exact ⟨q', hq', hlinks a hleads⟩

/-- Every link leads to the same node as before. -/
theorem of_peek (hsane : s'.tree.Sane) (hblocks : blocks s'.device = blocks s.device)
    (halloc : s'.allocator = s.allocator)
    (hpeek : ∀ {link content}, s.peek link = some content → s'.peek link = some content)
    (hroot : s'.tree.root = s.tree.root)
    (hnode : ∀ {a n}, s.tree.nodes a = some n → ∃ n', s'.tree.nodes a = some n' ∧
      n'.getParent = n.getParent ∧ n'.links = n.links)
    (hold : ∀ a, s.tree.nodes a = none → s'.tree.nodes a = none) : Unfolds s s' := by
  have hden : ∀ {height lo hi link files}, s.Denotes height lo hi link files →
      s'.Denotes height lo hi link files := fun h => h.of_peek hpeek
  refine ⟨hsane, hblocks, halloc, hden, fun h => hroot ▸ hden h, fun h => hroot ▸ h, fun hn => ?_, ?_⟩
  · obtain ⟨n', hn', hparent, hlinks⟩ := hnode hn
    exact ⟨n', hn', hparent, fun b hb => by rwa [MemTreeNode.LeadsTo, hlinks]⟩
  · intro a n hnone hn
    rw [hold a hnone] at hn
    cases hn

theorem setRootLock (h : s.tree.Sane) (l : Bool) : Unfolds s (s.setRootLock l) :=
  of_peek ⟨h.bound, h.cells⟩ rfl rfl (fun hp => hp) rfl (fun hn => ⟨_, hn, rfl, rfl⟩) fun _ h => h

/-- The device has done something, and holds the same blocks. -/
theorem setDevice (h : s.tree.Sane) (hdev : blocks dev = blocks s.device) : Unfolds s { s with device := dev } := by
  refine of_peek h hdev rfl (fun {link content} hp => ?_) rfl (fun hn => ⟨_, hn, rfl, rfl⟩) fun _ h => h
  rcases hnode : link.node with _ | x
  · rw [peek_none hnode] at hp ⊢
    rw [hdev]
    exact hp
  · rw [peek_some hnode] at hp ⊢
    exact hp

/-- A node changes its lock. -/
theorem setLock (h : s.tree.Sane) (ha : s.tree.nodes a = some n) (l : Bool) :
    Unfolds s (s.setNode a (some (n.setLock l))) := by
  have hcontent : (n.setLock l).content s.tree.cells = n.content s.tree.cells := by cases n <;> rfl
  refine of_peek (h.setNode ha fun p files d k hn => ?_) rfl rfl (fun {link content} hp => ?_) rfl
    (fun {x m} hx => ?_) fun x hx => ?_
  · cases n with
    | node => cases hn
    | leave p' files' d' l' =>
      cases hn
      exact h.cells a _ _ _ _ ha
  · by_cases hlink : link.node = some a
    · rw [peek_some hlink, ha] at hp
      rw [peek_some hlink, setNode_nodes_self]
      exact (congrArg some hcontent).trans hp
    · rw [peek_setNode hlink, hp]
  · by_cases hxa : x = a
    · subst hxa
      obtain rfl : n = m := Option.some.inj (ha.symm.trans hx)
      exact ⟨_, setNode_nodes_self, getParent_setLock, links_setLock⟩
    · exact ⟨m, (setNode_nodes_of_ne hxa).trans hx, rfl, rfl⟩
  · have hxa : x ≠ a := fun heq => by rw [heq, ha] at hx; cases hx
    rw [setNode_nodes_of_ne hxa, hx]
end Unfolds

/-! ## Loading -/

/-- Only cells were added. -/
structure CellsAdded (s s' : Store D) : Prop where
  eq : s' = { s with tree := { s.tree with cells := s'.tree.cells, nextCell := s'.tree.nextCell } }
  le : s.tree.nextCell ≤ s'.tree.nextCell
  old : ∀ c < s.tree.nextCell, s'.tree.cells c = s.tree.cells c
  beyond : ∀ c, s'.tree.nextCell ≤ c → s'.tree.cells c = s.tree.cells c

section Loading
variable {s s' s'' : Store D} {a : Addr} {ε : Type} {E : ε → Store D → Prop}

omit [BlockDevice D Block] [BlockContents D Block]

theorem CellsAdded.refl (s : Store D) : CellsAdded s s := ⟨rfl, le_rfl, fun _ _ => rfl, fun _ _ => rfl⟩

theorem CellsAdded.trans (h : CellsAdded s s') (h' : CellsAdded s' s'') : CellsAdded s s'' where
  eq := by rw [h'.eq, h.eq]
  le := h.le.trans h'.le
  old c hc := (h'.old c (hc.trans_le h.le)).trans (h.old c hc)
  beyond c hc := (h'.beyond c hc).trans (h.beyond c (h'.le.trans hc))

/-- Loading the files of a leave gives file nodes that hold the same. -/
theorem Store.wp_loadFiles_stored : ∀ (gs : List FsFileNode) {s : Store D} {Q : List FileNode → Store D → Prop},
    (∀ fs s', CellsAdded s s' → fs.map (FileNode.stored s'.tree.cells) = gs.map FsFileNode.stored →
      (∀ f ∈ fs, f.blockData < s'.tree.nextCell) → Q fs s') →
    (loadFiles gs : Prog (Store D) ε _).wp Q E s
  | [], s, Q, hQ => hQ [] s (.refl s) rfl fun _ hf => absurd hf not_mem_nil
  | g :: gs, s, Q, hQ => by
    simp only [loadFiles, newCell, wp_bind, wp_get, wp_modifyTree, wp_pure]
    refine wp_loadFiles_stored gs fun fs s' hs' hfs hlt => ?_
    set s₁ : Store D := { s with tree := { s.tree with
      cells := Function.update s.tree.cells s.tree.nextCell (some (.onDevice g.blockData))
      nextCell := s.tree.nextCell + 1 } } with hs1
    have h₁ : CellsAdded s s₁ := ⟨rfl, Nat.le_succ _, fun c hc => Function.update_of_ne hc.ne _ _,
        fun c hc => Function.update_of_ne (Nat.lt_of_succ_le hc).ne' _ _⟩
    -- the first file was made before the others and keeps its cell
    have hcell : s'.tree.cells s.tree.nextCell = some (.onDevice g.blockData) :=
      (hs'.old _ (lt_add_one _)).trans (Function.update_self ..)
    refine hQ _ s' (h₁.trans hs') ?_ fun f hf => ?_
    · rw [map_cons, map_cons, hfs]
      exact congrArg (· :: _) (StoredFile.ext rfl hcell)
    · rcases mem_cons.1 hf with rfl | hf
      · exact (lt_add_one _).trans_le hs'.le
      · exact hlt f hf

/-- A node that was just loaded. -/
structure Loaded (t : MemTree) (parent : Option Addr) (tn : TreeNode) (n : MemTreeNode) : Prop where
  loadedAs : LoadedAs parent tn n
  content : n.content t.cells = tn.content
  cells : ∀ p files d l, n = .leave p files d l → ∀ f ∈ files.toList, f.blockData < t.nextCell

/-- `MemTreeNode::new_from` -/
theorem Store.wp_newFrom_stored {parent : Option Addr} {tn : TreeNode} {Q : MemTreeNode → Store D → Prop}
    (hQ : ∀ n s', CellsAdded s s' → Loaded s'.tree parent tn n → Q n s') :
    (newFrom tn parent : Prog (Store D) ε _).wp Q E s := by
  cases tn with
  | leave gs =>
    rw [newFrom, wp_bind]
    refine wp_loadFiles_stored _ fun fs s' hs' hfs hlt => ?_
    -- nothing is cut off: there are as many files as in the block
    have hlen : fs.length ≤ LEAVE_MAX_FILE_COUNT := by
      have := congrArg List.length hfs
      rw [length_map, length_map] at this
      exact this ▸ gs.length_le
    have htake : (StaticVec.collect fs : Files).toList = fs := take_of_length_le hlen
    refine hQ _ s' hs' ⟨⟨_, rfl⟩, ?_, fun p files d l hn f hf => ?_⟩
    · rw [content, htake, hfs]
      rfl
    · cases hn
      exact hlt f (htake ▸ hf)
  | node children =>
    refine hQ _ s (.refl s) ⟨rfl, ?_, fun p files d l hn => by cases hn⟩
    have hlen : (children.toList.map fun c =>
        (({ node := none, devicePtr := some c.1 } : MemTreeLink), c.2)).length ≤
        NODE_MAX_CHILD_COUNT := by
      rw [length_map]
      exact children.length_le
    exact congrArg NodeContent.node (take_of_length_le hlen)
end Loading

/-- An error that a device read gave. -/
def ReadFailed (e : FsError) (s : Store D) : Prop :=
  ∃ lba d e', (BlockDevice.readBlock lba : Prog D DeviceError Block) d = .err e' s.device ∧ e = mapDeviceError e'

section Resolve
variable {s : Store D} {a : Addr} {E : FsError → Store D → Prop} {tn : TreeNode} {n : MemTreeNode}
  {link : MemTreeLink} {ptr : DevicePointer .treeNode} {parent : Option Addr} {content : NodeContent} {s' : Store D}
  {x : Addr} {d dc l : Bool} {cs : Children} {c : MemTreeLink × Option FileId} {m : MemTreeNode}
  {p : Option Addr} {i : ℕ}

/-- Reading a tree node: the node that is there, or an error. -/
theorem Store.wp_readNode_blocks
    {Q : TreeNode → Store D → Prop} (hblock : (blocks s.device ptr.lba).read .treeNode = some tn)
    (hQ : ∀ dev, blocks dev = blocks s.device → Q tn { s with device := dev })
    (hE : ∀ e dev, blocks dev = blocks s.device → ReadFailed e { s with device := dev } →
      E e { s with device := dev }) :
    (onDevice (mapErr mapDeviceError (readPointer ptr)) : Prog (Store D) FsError TreeNode).wp Q E s := by
  rw [onDevice, wp_zoom, wp_mapErr, readPointer, wp_bind]
  have hread := BlockContents.readBlock_meets ptr.lba s.device
  unfold Prog.meets at hread
  rcases hrun : (BlockDevice.readBlock ptr.lba : Prog D DeviceError Block) s.device with
    ⟨b, dev⟩ | ⟨e, dev⟩ | f
  all_goals rw [hrun] at hread
  · obtain ⟨rfl, hdev⟩ := hread
    rw [wp_of_ok hrun, hblock]
    exact hQ dev hdev
  · rw [wp_of_err hrun]
    exact hE _ dev hread ⟨ptr.lba, s.device, e, hrun, rfl⟩
  · exact hread.elim

/-- A node was loaded into a new box, and no link leads to it yet. -/
structure Detached (s s' : Store D) (parent : Option Addr) (tn : TreeNode) (n : MemTreeNode) : Prop where
  sane : s'.tree.Sane
  blocks_eq : blocks s'.device = blocks s.device
  allocator_eq : s'.allocator = s.allocator
  peek_eq : ∀ {link content}, s.peek link = some content → s'.peek link = some content
  root_eq : s'.tree.root = s.tree.root
  rootLock_eq : s'.tree.rootLock = s.tree.rootLock
  held_eq : s'.tree.held = s.tree.held
  fresh : s.tree.nodes s.tree.nextAddr = none
  new : s'.tree.nodes s.tree.nextAddr = some n
  old : ∀ x, x ≠ s.tree.nextAddr → s'.tree.nodes x = s.tree.nodes x
  parent_eq : n.getParent = parent
  content_eq : n.content s'.tree.cells = tn.content

theorem Detached.of_loaded {s₁ : Store D} (h : s.tree.Sane) (hdev : blocks dev = blocks s.device)
    (hcells : CellsAdded { s with device := dev } s₁) (hn : Loaded s₁.tree parent tn n) :
    Detached s (s₁.addNode n) parent tn n := by
  -- apart from its cells `s₁` is `s` on another device
  have hnodes : s₁.tree.nodes = s.tree.nodes := by rw [hcells.eq]
  have hnext : s₁.tree.nextAddr = s.tree.nextAddr := by rw [hcells.eq]
  have hroot : s₁.tree.root = s.tree.root := by rw [hcells.eq]
  have hlock : s₁.tree.rootLock = s.tree.rootLock := by rw [hcells.eq]
  have halloc : s₁.allocator = s.allocator := by rw [hcells.eq]
  have hdevice : s₁.device = dev := by rw [hcells.eq]
  have hnew : (s₁.addNode n).tree.nodes s.tree.nextAddr = some n := by
    rw [← hnext]
    exact addNode_nodes_self
  have hold : ∀ x, x ≠ s.tree.nextAddr → (s₁.addNode n).tree.nodes x = s.tree.nodes x := by
    intro x hx
    rw [addNode_nodes_of_ne (hnext ▸ hx), hnodes]
  have hcontent : ∀ x m, s.tree.nodes x = some m → m.content s₁.tree.cells = m.content s.tree.cells := by
    intro x m hx
    cases m with
    | node p cs d dc l => rfl
    | leave p files d l =>
      exact congrArg NodeContent.leave (map_congr_left fun f hf =>
        StoredFile.ext rfl (hcells.old _ (h.cells x p files d l hx f hf)))
  refine { sane := ⟨fun x m hx => ?_, fun x p files d l hx => ?_⟩, blocks_eq := ?_, allocator_eq := halloc,
           peek_eq := fun {link content} hp => ?_, root_eq := hroot, rootLock_eq := hlock, held_eq := ?_,
           fresh := h.fresh, new := hnew, old := hold, parent_eq := hn.loadedAs.getParent,
           content_eq := hn.content }
  · rw [addNode_nextAddr, hnext]
    by_cases hxa : x = s.tree.nextAddr
    · exact hxa ▸ lt_add_one _
    · rw [hold x hxa] at hx
      exact (h.bound x m hx).trans (lt_add_one _)
  · by_cases hxa : x = s.tree.nextAddr
    · rw [hxa, hnew] at hx
      exact hn.cells p files d l (Option.some.inj hx)
    · rw [hold x hxa] at hx
      exact fun f hf => (h.cells x p files d l hx f hf).trans_le hcells.le
  · rw [addNode_device, hdevice, hdev]
  · rcases hnode : link.node with _ | x
    · rw [peek_none hnode] at hp ⊢
      rw [addNode_device, hdevice, hdev]
      exact hp
    · rw [peek_some hnode] at hp ⊢
      obtain ⟨m, hm, rfl⟩ := Option.map_eq_some_iff.1 hp
      have hxa : x ≠ s.tree.nextAddr := (h.bound x m hm).ne
      rw [hold x hxa, hm]
      exact congrArg some (hcontent x m hm)
  · have hfresh : s₁.tree.nodes s₁.tree.nextAddr = none := by rw [hnodes, hnext, h.fresh]
    rw [MemTree.held_addNode hfresh hn.loadedAs.isLocked]
    ext x
    exact MemTree.mem_held_congr (by rw [hnodes])

section
variable (h : Detached s s' parent tn n)
include h

/-- The new node holds what its block does. -/
theorem Detached.peek_new (hnode : link.node = some s.tree.nextAddr) : s'.peek link = some tn.content := by
  rw [peek_some hnode, h.new, Option.map_some, h.content_eq]

theorem Detached.denotes {height lo hi : ℕ} {files : List StoredFile}
    (hd : s.Denotes height lo hi link files) : s'.Denotes height lo hi link files :=
  hd.of_peek h.peek_eq

theorem Detached.ne (hx : s.tree.nodes x = some m) : x ≠ s.tree.nextAddr := fun heq => by
  rw [heq, h.fresh] at hx
  cases hx

theorem Detached.eq_new
    (hnone : s.tree.nodes x = none) (hx : s'.tree.nodes x = some m) : x = s.tree.nextAddr ∧ m = n := by
  have hxa : x = s.tree.nextAddr := by
    by_contra hne
    rw [h.old x hne, hnone] at hx
    cases hx
  exact ⟨hxa, Option.some.inj (hx.symm.trans (hxa ▸ h.new))⟩
end

/-- **The root is loaded.** -/
theorem Detached.unfolds_root
    (h : Detached s s' none tn n) (hroot : s.tree.root = { node := none, devicePtr := some ptr })
    (hblock : (blocks s.device ptr.lba).read .treeNode = some tn) :
    Unfolds s (s'.setRoot { node := some s.tree.nextAddr, devicePtr := some ptr }) := by
  have hsame : ∀ {link content}, s.peek link = some content →
      (s'.setRoot { node := some s.tree.nextAddr, devicePtr := some ptr }).peek link = some content :=
    fun hp => h.peek_eq hp
  have hpeek : s.peek s.tree.root = some tn.content := by
    rw [peek_none (by rw [hroot]), hroot, Option.bind_some, hblock, Option.map_some]
  refine ⟨⟨h.sane.bound, h.sane.cells⟩, h.blocks_eq, h.allocator_eq, fun hd => hd.of_peek hsame, fun hd => ?_,
    fun hr => ?_, ?_, ?_⟩
  · refine (hd.of_peek hsame).congr_peek ?_
    have hold : s'.peek s.tree.root = some tn.content := h.peek_eq hpeek
    have hnew : s'.peek { node := some s.tree.nextAddr, devicePtr := some ptr } = some tn.content := h.peek_new rfl
    exact hnew.trans hold.symm
  · rw [hroot] at hr
    cases hr
  · intro x m hx
    exact ⟨m, (h.old x (h.ne hx)).trans hx, rfl, fun _ hb => hb⟩
  · intro x m hnone hx
    obtain ⟨rfl, rfl⟩ := h.eq_new hnone hx
    rw [MemTree.Hangs, h.parent_eq]
    rfl

/-- **A child is loaded.** -/
theorem Detached.unfolds_child {cs' : Children} (h : Detached s s' (some a) tn n)
    (ha : s.tree.nodes a = some (.node p cs d dc l)) (hc : cs.toList[i]? = some c)
    (hnone : c.1.node = none) (hptr : c.1.devicePtr = some ptr)
    (hblock : (blocks s.device ptr.lba).read .treeNode = some tn)
    (hset : cs'.toList = cs.toList.set i ({ node := some s.tree.nextAddr, devicePtr := some ptr }, c.2)) :
    Unfolds s (s'.setNode a (some (.node p cs' d dc l))) := by
  obtain ⟨l1, l2, hlen, hl⟩ := split_at hc
  have hl' : cs'.toList = l1 ++ ({ node := some s.tree.nextAddr, devicePtr := some ptr }, c.2) :: l2 := by
    rw [hset, hl, ← hlen, set_append_right _ _ le_rfl, Nat.sub_self, set_cons_zero]
  have hpeekc : s'.peek c.1 = some tn.content := by
    refine h.peek_eq ?_
    rw [peek_none hnone, hptr, Option.bind_some, hblock, Option.map_some]
  -- the child's new link leads to the same node
  have hall : List.Forall₂ (fun c c' : MemTreeLink × Option FileId => c'.2 = c.2 ∧
      ∀ {height lo hi files}, s'.Denotes height lo hi c.1 files → s'.Denotes height lo hi c'.1 files)
      cs.toList cs'.toList := by
    have hsame : ∀ l : List (MemTreeLink × Option FileId), List.Forall₂
        (fun c c' : MemTreeLink × Option FileId => c'.2 = c.2 ∧ ∀ {height lo hi files},
          s'.Denotes height lo hi c.1 files → s'.Denotes height lo hi c'.1 files) l l :=
      fun l => forall₂_same.2 fun _ _ => ⟨rfl, fun h => h⟩
    rw [hl, hl']
    refine rel_append (hsame l1) (.cons ⟨rfl, fun hd => hd.congr_peek ?_⟩ (hsame l2))
    exact (h.peek_new rfl).trans hpeekc.symm
  have ha' : s'.tree.nodes a = some (.node p cs d dc l) := (h.old a (h.ne ha)).trans ha
  have hden : ∀ {height lo hi link files}, s.Denotes height lo hi link files →
      (s'.setNode a (some (.node p cs' d dc l))).Denotes height lo hi link files := by
    intro height lo hi link files hd
    refine (h.denotes hd).simulate (fun {link files} hp => ?_) fun {link cs0} hp => ?_
    · rw [peek_setNode fun hlink => ?_, hp]
      rw [peek_some hlink, ha'] at hp
      cases hp
    · by_cases hlink : link.node = some a
      · rw [peek_some hlink, ha'] at hp
        cases hp
        refine ⟨cs'.toList, ?_, hall⟩
        rw [peek_some hlink, setNode_nodes_self]
        rfl
      · refine ⟨cs0, (peek_setNode hlink).trans hp, forall₂_same.2 fun _ _ => ⟨rfl, fun h => h⟩⟩
  have hleads : ∀ b, MemTreeNode.LeadsTo (.node p cs d dc l) b → MemTreeNode.LeadsTo (.node p cs' d dc l) b := by
    rintro b ⟨link, hlink, hb⟩
    obtain ⟨e, he, rfl⟩ := mem_map.1 hlink
    rw [hl] at he
    refine ⟨e.1, mem_map_of_mem ?_, hb⟩
    rw [hl']
    rcases mem_focus.1 he with rfl | he
    · rw [hnone] at hb
      cases hb
    · exact mem_focus.2 (.inr he)
  refine ⟨h.sane.setNode ha' (fun p' files d' l' hn => by cases hn), h.blocks_eq, h.allocator_eq, hden,
    fun hd => ?_, fun hr => ?_, ?_, ?_⟩
  · rw [setNode_root, h.root_eq]
    exact hden hd
  · rw [setNode_root, h.root_eq]
    exact hr
  · intro x m hx
    by_cases hxa : x = a
    · subst hxa
      obtain rfl := Option.some.inj (ha.symm.trans hx)
      exact ⟨_, setNode_nodes_self, rfl, hleads⟩
    · exact ⟨m, by rw [setNode_nodes_of_ne hxa, h.old x (h.ne hx), hx], rfl, fun _ hb => hb⟩
  · intro x m hnone' hx
    have hxa : x ≠ a := fun heq => by rw [heq, ha] at hnone'; cases hnone'
    obtain ⟨rfl, rfl⟩ := h.eq_new hnone' ((setNode_nodes_of_ne hxa).symm.trans hx)
    rw [MemTree.Hangs, h.parent_eq]
    have hmem : (({ node := some s.tree.nextAddr, devicePtr := some ptr } : MemTreeLink), c.2) ∈ cs'.toList := by
      rw [hl']
      exact mem_focus.2 (.inl rfl)
    exact ⟨_, setNode_nodes_self, _, mem_map_of_mem hmem, rfl⟩

/-- What resolving a link comes to: its node is in memory, and no lock has changed. -/
structure Resolves (link : MemTreeLink) (s s' : Store D) (b : Addr) : Prop extends Unfolds s s' where
  held_eq : s'.tree.held = s.tree.held
  rootLock_eq : s'.tree.rootLock = s.tree.rootLock
  leads : ∀ {height lo hi files}, s.Denotes height lo hi link files → s'.Denotes height lo hi (.at b) files

/-- A node that is in memory already. -/
theorem Resolves.of_some (h : s.tree.Sane) (hb : link.node = some b) :
    Resolves link s s b := by
  refine { Unfolds.of_peek h rfl rfl (fun hp => hp) rfl (fun hn => ⟨_, hn, rfl, rfl⟩) fun _ h => h with
           held_eq := rfl, rootLock_eq := rfl, leads := fun hd => hd.congr_peek ?_ }
  have hat : (MemTreeLink.at b).node = some b := rfl
  rw [peek_some hb, peek_some hat]

/-- The block an unloaded link leads to. -/
theorem Store.exists_block (hpeek : s.peek link = some content) (hnone : link.node = none) :
    ∃ ptr tn, link.devicePtr = some ptr ∧ (blocks s.device ptr.lba).read .treeNode = some tn := by
  rw [peek_none hnone] at hpeek
  obtain ⟨ptr, hptr, hblock⟩ := Option.bind_eq_some_iff.1 hpeek
  obtain ⟨tn, htn, -⟩ := Option.map_eq_some_iff.1 hblock
  exact ⟨ptr, tn, hptr, htn⟩

/-- **Resolving the root** -/
theorem Store.wp_resolve_root (h : s.tree.Sane) (hpeek : s.peek s.tree.root = some content) :
    (resolve .root none : Prog (Store D) FsError Addr).wp
      (fun b s' => Resolves s.tree.root s s' b) (fun e s' => Unfolds s s' ∧ ReadFailed e s') s := by
  rw [resolve, wp_bind, wp_getLink_root]
  rcases hnode : s.tree.root.node with _ | b
  · obtain ⟨ptr, tn, hptr, hblock⟩ := exists_block hpeek hnode
    have hroot : s.tree.root = { node := none, devicePtr := some ptr } := by rw [← hnode, ← hptr]
    simp only [hptr, expect_some, wp_bind, wp_pure]
    refine wp_readNode_blocks hblock (fun dev hdev => ?_) fun e dev hdev hfailed => ⟨.setDevice h hdev, hfailed⟩
    refine wp_newFrom_stored fun n s₁ hcells hn => ?_
    rw [wp_allocNode, wp_setLink_root]
    have hdetached := Detached.of_loaded h hdev hcells hn
    have hnext : s₁.tree.nextAddr = s.tree.nextAddr := by rw [hcells.eq]
    rw [hroot, hnext]
    refine { hdetached.unfolds_root hroot hblock with
             held_eq := hdetached.held_eq, rootLock_eq := hdetached.rootLock_eq, leads := fun hd => ?_ }
    refine ((hdetached.unfolds_root hroot hblock).denotes hd).congr_peek ?_
    have hold : (s₁.addNode n).peek s.tree.root = some tn.content := by
      refine hdetached.peek_eq ?_
      rw [peek_none hnode, hptr, Option.bind_some, hblock, Option.map_some]
    have hnew : (s₁.addNode n).peek (.at s.tree.nextAddr) = some tn.content := hdetached.peek_new rfl
    rw [hroot] at hold
    exact hnew.trans hold.symm
  · exact .of_some h hnode

/-- **Resolving a child** -/
theorem Store.wp_resolve_child
     (h : s.tree.Sane)
    (ha : s.tree.nodes a = some (.node p cs d dc l)) (hc : cs.toList[i]? = some c)
    (hpeek : s.peek c.1 = some content) :
    (resolve (.child a i) (some a) : Prog (Store D) FsError Addr).wp
      (fun b s' => Resolves c.1 s s' b) (fun e s' => Unfolds s s' ∧ ReadFailed e s') s := by
  rw [resolve, wp_bind, wp_getLink_child ha]
  refine ⟨c, hc, ?_⟩
  rcases hnode : c.1.node with _ | b
  · obtain ⟨ptr, tn, hptr, hblock⟩ := exists_block hpeek hnode
    simp only [hptr, expect_some, wp_bind, wp_pure]
    refine wp_readNode_blocks hblock (fun dev hdev => ?_) fun e dev hdev hfailed => ⟨.setDevice h hdev, hfailed⟩
    refine wp_newFrom_stored fun n s₁ hcells hn => ?_
    have hdetached := Detached.of_loaded h hdev hcells hn
    have hnext : s₁.tree.nextAddr = s.tree.nextAddr := by rw [hcells.eq]
    have hne : a ≠ s.tree.nextAddr := (h.bound a _ ha).ne
    have ha1 : (s₁.addNode n).tree.nodes a = some (.node p cs d dc l) := (hdetached.old a hne).trans ha
    obtain ⟨cs', hset, hcs'⟩ := StaticVec.exists_setIdx
      (({ node := some s.tree.nextAddr, devicePtr := some ptr } : MemTreeLink), c.2) (List.getElem?_eq_some_iff.1 hc).1
    rw [wp_allocNode, wp_setLink_child ha1, hnext]
    refine ⟨c, hc, cs', hset, ?_⟩
    have hunfolds := hdetached.unfolds_child ha hc hnode hptr hblock hcs'
    have hheld : ((s₁.addNode n).setNode a (some (.node p cs' d dc l))).tree.held =
        (s₁.addNode n).tree.held := MemTree.held_setNode_of_eq ha1 rfl
    refine { hunfolds with
             held_eq := hheld.trans hdetached.held_eq, rootLock_eq := hdetached.rootLock_eq,
             leads := fun hd => (hunfolds.denotes hd).congr_peek ?_ }
    have hold : ((s₁.addNode n).setNode a (some (.node p cs' d dc l))).peek c.1 = some tn.content := by
      rw [peek_none hnode, hptr, setNode_device, hdetached.blocks_eq, Option.bind_some, hblock, Option.map_some]
    have hnew : ((s₁.addNode n).setNode a (some (.node p cs' d dc l))).peek (.at s.tree.nextAddr) =
        some tn.content := by
      rw [peek_some rfl, setNode_nodes_of_ne hne.symm, hdetached.new, Option.map_some]
      exact congrArg some hdetached.content_eq
    exact hnew.trans hold.symm
  · exact .of_some h hnode
end Resolve

/-! ## The walk -/

/-- A reader stands on the node at `a`: its lock is the only one that is held. -/
structure ReaderAt (a : Addr) (t : MemTree) : Prop extends t.Sane where
  rootLock : t.rootLock = false
  held : t.held = {a}

section Walk
variable {s : Store D} {a : Addr} {id : FileId}

omit [BlockDevice D Block] [BlockContents D Block] in
theorem Store.setNode_self (ha : s.tree.nodes a = some n) : s.setNode a (some n) = s := by
  rw [setNode, ← ha, Function.update_eq_self]

/-- The node at an address, from what it holds. -/
theorem Store.exists_node {content : NodeContent} (h : s.peek (.at a) = some content) :
    ∃ n, s.tree.nodes a = some n ∧ n.content s.tree.cells = content := by
  have hat : (MemTreeLink.at a).node = some a := rfl
  rw [peek_some hat] at h
  exact Option.map_eq_some_iff.1 h

/-- The reader goes from `a` to `b`: it takes the lock of `b` and lets that of `a` go. -/
theorem ReaderAt.move {β : Type} {rest : Prog (Store D) FsError β}
    {Q : β → Store D → Prop} {E : FsError → Store D → Prop} (h : ReaderAt a s.tree)
    (hne : b ≠ a) (hb : s.tree.nodes b = some n)
    (hrest : ∀ s', ReaderAt b s'.tree → Unfolds s s' → rest.wp Q E s') :
    (lockNode b).wp (fun _ s' => (unlockNode a >>= fun _ => rest).wp Q E s') E s := by
  have hfree : n.isLocked = false := by
    have hnot : b ∉ s.tree.held := by rw [h.held]; exact hne
    rw [MemTree.mem_held_of_some hb] at hnot
    exact Bool.eq_false_iff.2 hnot
  obtain ⟨m, hm, hlocked⟩ : a ∈ s.tree.held := by rw [h.held]; exact Set.mem_singleton a
  have hm' : (s.setNode b (some (n.setLock true))).tree.nodes a = some m := by rw [setNode_nodes_of_ne hne.symm, hm]
  have h₁ := Unfolds.setLock h.toSane hb true
  have h₂ := Unfolds.setLock h₁.sane hm' false
  refine wp_lockNode.2 ⟨n, hb, hfree, ?_⟩
  rw [wp_bind, wp_unlockNode]
  refine ⟨m, hm', hlocked, hrest _ { h₂.sane with rootLock := h.rootLock, held := ?_ } (h₁.trans h₂)⟩
  rw [MemTree.held_unlock isLocked_setLock, MemTree.held_lock isLocked_setLock, h.held, Set.pair_sdiff_right hne]

/-- **The loop of `find_leave`** ends on the leave that can hold the id, or a read fails. -/
theorem Store.wp_descend : ∀ {height fuel lo hi : ℕ} {a : Addr} {files : List StoredFile}
    {s : Store D}, height < fuel → ReaderAt a s.tree → s.Denotes height lo hi (.at a) files →
    lo < id.get → id.get ≤ hi →
    (descend false id fuel a : Prog (Store D) FsError Addr).wp
      (fun b s' => Unfolds s s' ∧ ReaderAt b s'.tree ∧ ∃ lo hi sub, s'.Denotes 0 lo hi (.at b) sub ∧
        ∀ f : StoredFile, f.node.id = id → (f ∈ sub ↔ f ∈ files))
      (fun e s' => Unfolds s s' ∧ ReadFailed e s') s
  | _, 0, _, _, _, _, _, hfuel, _, _, _, _ => absurd hfuel (Nat.not_lt_zero _)
  | 0, fuel + 1, lo, hi, a, files, s, _, h, hd, _, _ => by
    obtain ⟨n, ha, hcontent⟩ := exists_node hd.1
    rw [descend, wp_bind, wp_deref]
    refine ⟨n, ha, ?_⟩
    cases n with
    | node p cs d dc l => cases hcontent
    | leave p fs d l =>
      refine ⟨Unfolds.of_peek h.toSane rfl rfl (fun hp => hp) rfl (fun hn => ⟨_, hn, rfl, rfl⟩)
        fun _ h => h, h, lo, hi, files, hd, fun _ _ => Iff.rfl⟩
  | height + 1, fuel + 1, lo, hi, a, files, s, hfuel, h, hd, hlo, hhi => by
    obtain ⟨children, hchildren, hspans⟩ := hd
    obtain ⟨n, ha, hcontent⟩ := exists_node hchildren
    rw [descend, wp_bind, wp_deref]
    refine ⟨n, ha, ?_⟩
    cases n with
    | leave p fs d l => cases hcontent
    | node p cs d dc l =>
      obtain rfl : cs.toList = children := NodeContent.node.inj hcontent
      obtain ⟨i, c, lo', hi', sub, hroute, hc, hsub, hlo', hhi', hmem⟩ := hspans.route (fun hd => hd.range) hlo hhi
      have hindex : routeIndex id cs = some i := hroute
      simp only [Bool.or_false, wp_bind, wp_assign, setNode_self ha, hindex, expect_some, wp_pure]
      obtain ⟨content, hpeek⟩ := hsub.exists_peek
      refine wp_mono (wp_resolve_child h.toSane ha hc hpeek) (fun b s₁ h₁ => ?_) fun _ _ he => he
      have hb := h₁.leads hsub
      -- the child is of another height than its parent, so it is another node
      have hne : b ≠ a := by
        rintro rfl
        have hself : s.Denotes (height + 1) lo hi (.at b) files := ⟨_, hchildren, hspans⟩
        exact absurd (hb.height_unique (h₁.denotes hself) rfl) (Nat.succ_ne_self height).symm
      have hreader : ReaderAt a s₁.tree :=
        { h₁.sane with rootLock := h₁.rootLock_eq.trans h.rootLock, held := h₁.held_eq.trans h.held }
      obtain ⟨content', hpeek'⟩ := hb.exists_peek
      obtain ⟨nb, hnb, -⟩ := exists_node hpeek'
      rw [if_neg Bool.false_ne_true]
      refine hreader.move hne hnb fun s2 hreader2 h₂ => ?_
      have h12 := h₁.toUnfolds.trans h₂
      refine wp_mono (wp_descend (Nat.lt_of_succ_lt_succ hfuel) hreader2 (h₂.denotes hb) hlo'
        hhi') ?_ fun e s3 he => ⟨h12.trans he.1, he.2⟩
      rintro b' s3 ⟨h3, hreader3, lo3, hi3, sub3, hd3, hmem3⟩
      exact ⟨h12.trans h3, hreader3, lo3, hi3, sub3, hd3, fun f hf => (hmem3 f hf).trans (hmem f hf)⟩
end Walk

/-! ## The lookup -/

/-- **A search tree of which any part may be loaded**: `files` are all its files, and no lock is held. -/
structure PartlyLoaded (s : Store D) (height : ℕ) (files : List StoredFile) : Prop where
  denotes : s.Denotes height 0 FileId.MAX.get s.tree.root files
  sane : s.tree.Sane
  unlocked : s.tree.Unlocked

section Find
variable {s : Store D} {height : ℕ} {files : List StoredFile}

/-- **`find_leave`** of a reader -/
theorem Store.wp_findLeave (h : PartlyLoaded s height files) (id : FileId) :
    (findLeave false id : Prog (Store D) FsError Addr).wp
      (fun b s' => Unfolds s s' ∧ ReaderAt b s'.tree ∧ ∃ lo hi sub, s'.Denotes 0 lo hi (.at b) sub ∧
        ∀ f : StoredFile, f.node.id = id → (f ∈ sub ↔ f ∈ files))
      (fun e s' => Unfolds s s' ∧ ReadFailed e s') s := by
  have h0 := Unfolds.setRootLock h.sane true
  obtain ⟨content, hpeek⟩ := (h0.root h.denotes).exists_peek
  rw [findLeave, wp_bind, wp_lockRoot]
  refine ⟨h.unlocked.rootLock, ?_⟩
  rw [wp_bind]
  refine wp_mono (wp_resolve_root h0.sane hpeek) (fun b s₁ h₁ => ?_) fun e s₁ he => ⟨h0.trans he.1, he.2⟩
  have hb := h₁.leads (h0.root h.denotes)
  have hempty : s₁.tree.held = ∅ := h₁.held_eq.trans h.unlocked.held
  obtain ⟨content', hpeek'⟩ := hb.exists_peek
  obtain ⟨n, hn, -⟩ := exists_node hpeek'
  have hfree : n.isLocked = false := by
    have hnot : b ∉ s₁.tree.held := by rw [hempty]; exact Set.notMem_empty b
    rw [MemTree.mem_held_of_some hn] at hnot
    exact Bool.eq_false_iff.2 hnot
  rw [wp_bind, wp_lockNode]
  refine ⟨n, hn, hfree, ?_⟩
  have h₂ := Unfolds.setLock h₁.sane hn true
  have h3 := Unfolds.setRootLock h₂.sane false
  have hreader : ReaderAt b ((s₁.setNode b (some (n.setLock true))).setRootLock false).tree := by
    refine { h3.sane with rootLock := rfl, held := ?_ }
    have := MemTree.held_lock (s := s₁) (a := b) (n := n.setLock true) isLocked_setLock
    rw [hempty, LawfulSingleton.insert_empty_eq] at this
    exact this
  have hall := (h0.trans h₁.toUnfolds).trans (h₂.trans h3)
  rw [if_neg Bool.false_ne_true, wp_bind, wp_unlockRoot]
  refine ⟨h₁.rootLock_eq, ?_⟩
  rw [wp_bind, wp_get]
  have hd := (h₂.trans h3).denotes hb
  have hfuel := Nat.lt_succ_of_lt (hd.height_lt hreader.bound)
  refine wp_mono (wp_descend hfuel hreader hd id.pos (FileId.le_MAX id)) ?_ fun e s' he => ⟨hall.trans he.1, he.2⟩
  rintro b' s' ⟨h', hreader', hleave⟩
  exact ⟨hall.trans h', hreader', hleave⟩

/-- The search of a leave finds the file with an id, and there is only one. -/
theorem find?_stored {cells : CellId → Option BlockListAccess} {fs : List FileNode} {id : FileId}
    (hsorted : Sorted (fun f : StoredFile => f.node.id) (fs.map (FileNode.stored cells)))
    (f : StoredFile) : (fs.find? fun f => f.id = id).map (FileNode.stored cells) = some f ↔
      f ∈ fs.map (FileNode.stored cells) ∧ f.node.id = id := by
  rw [← hsorted.lookup_eq_some, lookup, find?_map]
  rfl

end Find

/-- A file in the block of a leave. -/
def lastFile : FsFileNode where
  id := .MAX
  parent := some .ROOT
  typ := .file
  permissions := (0, 0, 0, 0)
  uid := 0
  gid := 0
  size := 0
  createdAt := 0
  modifiedAt := 0
  blockData := .ofLBA .ZERO
  blockCount := 0

/-- An inner node with two leaves, of which the second is still on the device. -/
def halfLoaded : Store (Disk Block) where
  tree :=
    { root := .at 0
      rootLock := false
      nodes := fun a =>
        if a = 0 then some (.node none (StaticVec.collect [(.at 1, some .ROOT),
          ({ node := none, devicePtr := some ⟨.ONE⟩ }, none)]) true true false)
        else if a = 1 then
          some (.leave (some 0) (StaticVec.collect [.new .ROOT none .directory 0 0 0]) true false)
        else none
      nextAddr := 2
      cells := fun c => if c = 0 then some (.inMem (.vec [])) else none
      nextCell := 1 }
  allocator := { free := [], onDisk := none, selfOnDisk := [], dirty := false }
  device := { size := 2, blocks := fun _ => .treeNode (.leave (StaticVec.collect [lastFile])), writes := [] }

theorem partlyLoaded_halfLoaded :
    letI := noBytes
    PartlyLoaded halfLoaded 1
      [(FileNode.new .ROOT none .directory 0 0 0).stored halfLoaded.tree.cells, lastFile.stored] := by
  let _ := noBytes
  have hnodes : ∀ a n, halfLoaded.tree.nodes a = some n → a = 0 ∧ n.isLocked = false ∧ n.links ≠ [] ∨
      a = 1 ∧ n = .leave (some 0) (StaticVec.collect [.new .ROOT none .directory 0 0 0]) true false := by
    intro a n h
    simp only [halfLoaded] at h
    split at h
    · cases h
      exact .inl ⟨‹_›, rfl, cons_ne_nil _ _⟩
    · split at h
      · cases h
        exact .inr ⟨‹_›, rfl⟩
      · cases h
  refine ⟨?_, ⟨fun a n h => ?_, fun a p files d l h f hf => ?_⟩, rfl, Set.eq_empty_of_forall_notMem ?_⟩
  · refine ⟨_, rfl, by decide, by decide, [_], [_], rfl, ⟨rfl, pairwise_singleton .., ?_⟩, rfl, rfl,
      pairwise_singleton .., ?_⟩
    · decide
    · decide
  · rcases hnodes a n h with ⟨rfl, -⟩ | ⟨rfl, -⟩
    · decide
    · decide
  · rcases hnodes a _ h with ⟨-, -, hlinks⟩ | ⟨-, hleave⟩
    · exact absurd rfl hlinks
    · cases hleave
      obtain rfl := mem_singleton.1 hf
      decide
  · rintro a ⟨n, h, hlocked⟩
    rcases hnodes a n h with ⟨-, hfree, -⟩ | ⟨-, rfl⟩
    · rw [hfree] at hlocked
      cases hlocked
    · cases hlocked

end WasabiOS
