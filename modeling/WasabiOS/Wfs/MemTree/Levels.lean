import WasabiOS.Wfs.MemTree.Flush
import WasabiOS.Wfs.MemTree.Steps

/-!
# Wfs/MemTree/Levels — levels of nodes, and the locks that are held

Every node in memory has a level: links go down one level, parent pointers go up one, and only the root
has no parent.  This is all of a tree's shape that every operation keeps, on every tree: a node that is
moved to another parent keeps its parent pointer, which then names another node of the same level, or
one that is gone.

`held` are the nodes whose lock is taken.  A walk takes one lock per level, a `Ladder`, so whoever
climbs back along the parent pointers finds on each level the lock that was taken there, or none.
-/

open Machinery Prog
open Function (update update_self update_of_ne)
namespace WasabiOS
open Store List Set
variable {level level' : Addr → ℤ} {ℓ top : ℤ} {n n' : MemTreeNode} {a b : Addr}
  {dc l : Bool} {cs : Children} {t t' : MemTree} {p : Option Addr}

variable {D : Type} {s : Store D}

/-- The links of a node. -/
def MemTreeNode.links : MemTreeNode → List MemTreeLink
  | node _ children _ _ _ => children.toList.map Prod.fst
  | leave .. => []

/-- The nodes whose lock is taken. -/
def MemTree.held (t : MemTree) : Set Addr := {a | ∃ n, t.nodes a = some n ∧ n.isLocked = true}

/-- No lock is taken. -/
structure MemTree.Unlocked (t : MemTree) : Prop where
  rootLock : t.rootLock = false
  held : t.held = ∅

/-! ## Levels -/

/-- A link of a node on level `ℓ` leads to the level below. -/
def LinkFits (next : Addr) (level : Addr → ℤ) (ℓ : ℤ) (link : MemTreeLink) : Prop :=
  ∀ b, link.node = some b → b < next ∧ level b + 1 = ℓ

/-- The links and the parent pointer of a node that is on level `ℓ`. -/
structure NodeFits (next : Addr) (level : Addr → ℤ) (ℓ : ℤ) (n : MemTreeNode) : Prop where
  links : ∀ link ∈ n.links, LinkFits next level ℓ link
  parent : ∀ q, n.getParent = some q → q < next ∧ level q = ℓ + 1

/-- **Levels of a tree**: the root is at the top, and every node fits its level. -/
structure Levelled (level : Addr → ℤ) (top : ℤ) (t : MemTree) : Prop where
  root : ∀ a, t.root.node = some a → a < t.nextAddr ∧ level a = top
  bound : ∀ a n, t.nodes a = some n → a < t.nextAddr
  fits : ∀ a n, t.nodes a = some n → NodeFits t.nextAddr level (level a) n
  orphan : ∀ a n, t.nodes a = some n → (n.getParent = none ↔ t.root.node = some a)

/-- The tree has levels. -/
def MemTree.IsLevelled (t : MemTree) : Prop := ∃ level top, Levelled level top t

section Fits
variable {next next' : Addr} {link : MemTreeLink} {parent : Option Addr} {children : Children} {files : Files}
  {dirty dirtyChildren lock : Bool} {q : Option Addr}

theorem LinkFits.mono (h : LinkFits next level ℓ link) (hnext : next ≤ next')
    (hlevel : ∀ x < next, level' x = level x) : LinkFits next' level' ℓ link := by
  intro b hb
  obtain ⟨hlt, hb⟩ := h b hb
  exact ⟨hlt.trans_le hnext, hlevel b hlt ▸ hb⟩

theorem LinkFits.of_none (h : link.node = none) : LinkFits next level ℓ link := by
  intro b hb
  rw [h] at hb
  cases hb

theorem NodeFits.mono (h : NodeFits next level ℓ n) (hnext : next ≤ next')
    (hlevel : ∀ x < next, level' x = level x) : NodeFits next' level' ℓ n where
  links link hlink := (h.links link hlink).mono hnext hlevel
  parent q hq := by
    obtain ⟨hlt, hq⟩ := h.parent q hq
    exact ⟨hlt.trans_le hnext, hlevel q hlt ▸ hq⟩

theorem nodeFits_node : NodeFits next level ℓ (.node parent children dirty dirtyChildren lock) ↔
    (∀ c ∈ children.toList, LinkFits next level ℓ c.1) ∧ ∀ q, parent = some q → q < next ∧ level q = ℓ + 1 := by
  refine ⟨fun h => ⟨fun c hc => h.links _ (mem_map_of_mem hc), h.parent⟩, fun h => ⟨?_, h.2⟩⟩
  intro link hlink
  obtain ⟨c, hc, rfl⟩ := mem_map.1 hlink
  exact h.1 c hc

theorem nodeFits_leave : NodeFits next level ℓ (.leave parent files dirty lock) ↔
    ∀ q, parent = some q → q < next ∧ level q = ℓ + 1 :=
  ⟨fun h => h.parent, fun h => ⟨forall_mem_nil _, h⟩⟩

theorem MemTreeNode.links_setLock {b : Bool} : (n.setLock b).links = n.links := by cases n <;> rfl

theorem MemTreeNode.getParent_setLock {b : Bool} : (n.setLock b).getParent = n.getParent := by cases n <;> rfl

theorem MemTreeNode.isLocked_setLock {b : Bool} : (n.setLock b).isLocked = b := by cases n <;> rfl

theorem MemTreeNode.links_setParent : (n.setParent q).links = n.links := by cases n <;> rfl

theorem MemTreeNode.getParent_setParent : (n.setParent q).getParent = q := by cases n <;> rfl

theorem MemTreeNode.isLocked_setParent : (n.setParent q).isLocked = n.isLocked := by cases n <;> rfl
end Fits

namespace Levelled

/-- Where a node is. -/
abbrev Placed (level : Addr → ℤ) (t : MemTree) (a : Addr) (n : MemTreeNode) : Prop :=
  a < t.nextAddr ∧ NodeFits t.nextAddr level (level a) n ∧ (n.getParent = none ↔ t.root.node = some a)

theorem placed (h : Levelled level top t) (ha : t.nodes a = some n) : Placed level t a n :=
  ⟨h.bound a n ha, h.fits a n ha, h.orphan a n ha⟩

/-- A tree has levels if each of its nodes is placed. -/
theorem of_placed (hroot : ∀ a, t.root.node = some a → a < t.nextAddr ∧ level a = top)
    (h : ∀ a n, t.nodes a = some n → Placed level t a n) : Levelled level top t :=
  ⟨hroot, fun a n ha => (h a n ha).1, fun a n ha => (h a n ha).2.1, fun a n ha => (h a n ha).2.2⟩

/-- Levels are about nodes and links alone. -/
theorem congr (h : Levelled level top t) (hroot : t'.root.node = t.root.node)
    (hnodes : t'.nodes = t.nodes) (hnext : t'.nextAddr = t.nextAddr) : Levelled level top t' where
  root := by rw [hroot, hnext]; exact h.root
  bound := by rw [hnodes, hnext]; exact h.bound
  fits := by rw [hnodes, hnext]; exact h.fits
  orphan := by rw [hnodes, hroot]; exact h.orphan

section
variable (h : Levelled level top s.tree)
include h

theorem setRootLock (b : Bool) : Levelled level top (s.setRootLock b).tree := h.congr rfl rfl rfl

/-- A node is overwritten by one that fits its place. -/
theorem setNode (ha : a < s.tree.nextAddr) (hfits : NodeFits s.tree.nextAddr level (level a) n)
    (horphan : n.getParent = none ↔ s.tree.root.node = some a) :
    Levelled level top (s.setNode a (some n)).tree := by
  refine .of_placed h.root fun x m hx => ?_
  rw [setNode_nodes] at hx
  split at hx
  case isTrue hxa =>
    cases hx
    subst hxa
    exact ⟨ha, hfits, horphan⟩
  case isFalse => exact h.placed hx

section
variable (ha : s.tree.nodes a = some n)
include ha

/-- A node is overwritten by one with the same parent. -/
theorem assign (hparent : n'.getParent = n.getParent)
    (hlinks : ∀ link ∈ n'.links, LinkFits s.tree.nextAddr level (level a) link) :
    Levelled level top (s.setNode a (some n')).tree :=
  h.setNode (h.bound a n ha) ⟨hlinks, by rw [hparent]; exact (h.fits a n ha).parent⟩
    (by rw [hparent]; exact h.orphan a n ha)

/-- A node is overwritten by one with the same parent and links. -/
theorem assign_same (hparent : n'.getParent = n.getParent) (hlinks : n'.links = n.links) :
    Levelled level top (s.setNode a (some n')).tree :=
  h.assign ha hparent (by rw [hlinks]; exact (h.fits a n ha).links)

theorem setLock (locked : Bool) : Levelled level top (s.setNode a (some (n.setLock locked))).tree :=
  h.assign_same ha MemTreeNode.getParent_setLock MemTreeNode.links_setLock
end

theorem dropNode (a : Addr) : Levelled level top (s.setNode a none).tree := by
  refine .of_placed h.root fun x m hx => h.placed ?_
  rw [setNode_nodes] at hx
  split at hx
  · cases hx
  · exact hx

theorem fresh : s.tree.nodes s.tree.nextAddr = none := by
  cases hn : s.tree.nodes s.tree.nextAddr with
  | none => rfl
  | some n => exact absurd (h.bound _ n hn) (lt_irrefl _)

theorem held_lt (ha : a ∈ s.tree.held) : a < s.tree.nextAddr := by
  obtain ⟨n, hn, -⟩ := ha
  exact h.bound a n hn

/-- The link of a child. -/
theorem child {d : Bool} {c : MemTreeLink × Option FileId} (ha : s.tree.nodes a = some (.node p cs d dc l))
    (hc : c ∈ cs.toList) : LinkFits s.tree.nextAddr level (level a) c.1 :=
  (nodeFits_node.1 (h.fits a _ ha)).1 c hc

theorem parent (ha : s.tree.nodes a = some n)
    (hp : n.getParent = some b) : b < s.tree.nextAddr ∧ level b = level a + 1 :=
  (h.fits a n ha).parent b hp
end
end Levelled

/-! ## Held locks -/

namespace MemTree

theorem mem_held_iff : a ∈ t.held ↔ ∃ n, t.nodes a = some n ∧ n.isLocked = true := Iff.rfl

theorem mem_held_of_some (ha : t.nodes a = some n) : a ∈ t.held ↔ n.isLocked = true := by
  simp only [mem_held_iff, ha, Option.some.injEq, exists_eq_left']

/-- What is held at other addresses. -/
theorem mem_held_congr (h : t'.nodes a = t.nodes a) : a ∈ t'.held ↔ a ∈ t.held := by rw [mem_held_iff, mem_held_iff, h]

theorem held_setNode_of_eq (ha : s.tree.nodes a = some n) (hlock : n'.isLocked = n.isLocked) :
    (s.setNode a (some n')).tree.held = s.tree.held := by
  ext x
  by_cases hx : x = a
  · subst hx
    rw [mem_held_of_some setNode_nodes_self, mem_held_of_some ha, hlock]
  · exact mem_held_congr (setNode_nodes_of_ne hx)

theorem held_lock (hlock : n.isLocked = true) : (s.setNode a (some n)).tree.held = insert a s.tree.held := by
  ext x
  rw [mem_insert_iff]
  by_cases hx : x = a
  · subst hx
    exact iff_of_true ((mem_held_of_some setNode_nodes_self).2 hlock) (.inl rfl)
  · rw [mem_held_congr (setNode_nodes_of_ne hx), or_iff_right hx]

/-- A node whose lock is not taken, or no node, is put at an address. -/
theorem held_release {o : Option MemTreeNode} (ho : ∀ n ∈ o, n.isLocked = false) :
    (s.setNode a o).tree.held = s.tree.held \ {a} := by
  ext x
  rw [mem_sdiff, mem_singleton_iff]
  by_cases hx : x = a
  · subst hx
    refine iff_of_false ?_ fun h => h.2 rfl
    rintro ⟨n, hn, hlock⟩
    rw [setNode_nodes_self] at hn
    rw [ho n hn] at hlock
    cases hlock
  · rw [mem_held_congr (setNode_nodes_of_ne hx), and_iff_left hx]

theorem held_unlock (hlock : n.isLocked = false) : (s.setNode a (some n)).tree.held = s.tree.held \ {a} :=
  held_release fun m hm => by cases hm; exact hlock

theorem held_dropNode : (s.setNode a none).tree.held = s.tree.held \ {a} := held_release fun m hm => by cases hm

theorem held_addNode (hfresh : s.tree.nodes s.tree.nextAddr = none) (hlock : n.isLocked = false) :
    (s.addNode n).tree.held = s.tree.held := by
  ext x
  by_cases hx : x = s.tree.nextAddr
  · subst hx
    rw [mem_held_of_some addNode_nodes_self, mem_held_iff, hfresh, hlock]
    simp
  · exact mem_held_congr (addNode_nodes_of_ne hx)
end MemTree

/-! ## Ladders -/

/-- One node for each of some levels, from `ℓ` up. -/
structure Ladder (level : Addr → ℤ) (top ℓ : ℤ) (held : Set Addr) : Prop where
  range : ∀ x ∈ held, ℓ ≤ level x ∧ level x ≤ top
  inj : Set.InjOn level held

namespace Ladder
variable {held : Set Addr}

theorem singleton (ha : level a ≤ top) : Ladder level top (level a) {a} :=
  ⟨fun x hx => by rw [mem_singleton_iff.1 hx]; exact ⟨le_rfl, ha⟩, injOn_singleton ..⟩

section
variable (h : Ladder level top ℓ held)
include h

theorem congr (hlevel : Set.EqOn level' level held) : Ladder level' top ℓ held where
  range x hx := by rw [hlevel hx]; exact h.range x hx
  inj := h.inj.congr hlevel.symm

theorem notMem (hb : level b < ℓ) : b ∉ held := fun hmem => absurd (h.range b hmem).1 (not_le.2 hb)

/-- One step down. -/
theorem insert (hb : level b + 1 = ℓ) (htop : level b ≤ top) : Ladder level top (level b) (insert b held) where
  range x hx := by
    rcases mem_insert_iff.1 hx with rfl | hx
    · exact ⟨le_rfl, htop⟩
    · have := h.range x hx
      exact ⟨by omega, this.2⟩
  inj := by
    refine (injOn_insert (h.notMem (by omega))).2 ⟨h.inj, ?_⟩
    rintro ⟨x, hx, hlevel⟩
    have := h.range x hx
    omega
end

/-- The lowest node leaves. -/
theorem pop (h : Ladder level top (level a) held) (ha : a ∈ held) : Ladder level top (level a + 1) (held \ {a}) where
  range x hx := by
    have hne : level x ≠ level a := fun heq => hx.2 (h.inj hx.1 ha heq)
    have := h.range x hx.1
    exact ⟨by omega, this.2⟩
  inj := h.inj.mono sdiff_subset

/-- A ladder that starts at the top is one node. -/
theorem eq_singleton (h : Ladder level top (level a) held) (ha : a ∈ held) (htop : level a = top) : held = {a} := by
  ext x
  refine ⟨fun hx => ?_, fun hx => by rw [mem_singleton_iff.1 hx]; exact ha⟩
  have := h.range x hx
  exact h.inj hx ha (by omega)
end Ladder

/-! ## New nodes -/

/-- Nodes were added below the root, unlocked, and each has its level. -/
structure Grown (level level' : Addr → ℤ) (top : ℤ) (s s' : Store D) : Prop extends Levelled level' top s'.tree where
  agree : ∀ x < s.tree.nextAddr, level' x = level x
  nextAddr_le : s.tree.nextAddr ≤ s'.tree.nextAddr
  held_eq : s'.tree.held = s.tree.held
  rootLock_eq : s'.tree.rootLock = s.tree.rootLock
  root_eq : s'.tree.root.node = s.tree.root.node

namespace Grown
variable {level1 level2 : Addr → ℤ} {s1 s2 : Store D}

theorem refl (h : Levelled level top s.tree) : Grown level level top s s := { h with
    agree := fun _ _ => rfl
    nextAddr_le := le_rfl
    held_eq := rfl
    rootLock_eq := rfl
    root_eq := rfl }

theorem trans (h1 : Grown level level1 top s s1) (h2 : Grown level1 level2 top s1 s2) :
    Grown level level2 top s s2 :=
  { h2.toLevelled with
    agree := fun x hx => (h2.agree x (hx.trans_le h1.nextAddr_le)).trans (h1.agree x hx)
    nextAddr_le := h1.nextAddr_le.trans h2.nextAddr_le
    held_eq := h2.held_eq.trans h1.held_eq
    rootLock_eq := h2.rootLock_eq.trans h1.rootLock_eq
    root_eq := h2.root_eq.trans h1.root_eq }

/-- A node is overwritten by one with the same parent and lock. -/
theorem assign (h : Grown level level1 top s s1) (ha : s1.tree.nodes a = some n) (hparent : n'.getParent = n.getParent)
    (hlock : n'.isLocked = n.isLocked)
    (hlinks : ∀ link ∈ n'.links, LinkFits s1.tree.nextAddr level1 (level1 a) link) :
    Grown level level1 top s (s1.setNode a (some n')) :=
  { h.toLevelled.assign ha hparent hlinks with
    agree := h.agree
    nextAddr_le := h.nextAddr_le
    held_eq := (MemTree.held_setNode_of_eq ha hlock).trans h.held_eq
    rootLock_eq := h.rootLock_eq
    root_eq := h.root_eq }
end Grown

section
variable (h : Levelled level top s.tree)
include h

/-- The nodes there were keep their place. -/
theorem Levelled.mono_placed (ha : s.tree.nodes a = some n) :
    a < s.tree.nextAddr + 1 ∧ NodeFits (s.tree.nextAddr + 1) (update level s.tree.nextAddr ℓ)
      (update level s.tree.nextAddr ℓ a) n := by
  have hagree : ∀ x < s.tree.nextAddr, update level s.tree.nextAddr ℓ x = level x := fun x hx => update_of_ne hx.ne _ _
  have hlt := h.bound a n ha
  rw [hagree a hlt]
  exact ⟨hlt.trans (lt_add_one _), (h.fits a n ha).mono (Nat.le_succ _) hagree⟩

/-- A box for a node that fits a level. -/
theorem Levelled.addNode (hn : NodeFits s.tree.nextAddr level ℓ n)
    (hparent : n.getParent ≠ none) (hlock : n.isLocked = false) :
    Grown level (update level s.tree.nextAddr ℓ) top s (s.addNode n) := by
  have hagree : ∀ x < s.tree.nextAddr, update level s.tree.nextAddr ℓ x = level x := fun x hx => update_of_ne hx.ne _ _
  have hle : s.tree.nextAddr ≤ (s.addNode n).tree.nextAddr := Nat.le_succ _
  -- the new address is in no link: those are older
  have hroot : s.tree.root.node ≠ some s.tree.nextAddr := fun heq => absurd (h.root _ heq).1 (lt_irrefl _)
  refine { Levelled.of_placed (fun a ha => ?_) (fun a m ha => ?_) with
    agree := hagree, nextAddr_le := hle, held_eq := MemTree.held_addNode h.fresh hlock, rootLock_eq := rfl,
    root_eq := rfl }
  · obtain ⟨hlt, hlevel⟩ := h.root a ha
    exact ⟨hlt.trans_le hle, (hagree a hlt).trans hlevel⟩
  · rw [addNode_nodes] at ha
    split at ha
    case isTrue hx =>
      cases ha
      subst hx
      refine ⟨lt_add_one _, ?_, iff_of_false hparent hroot⟩
      rw [update_self]
      exact hn.mono hle hagree
    case isFalse =>
      obtain ⟨hlt, hfits⟩ := h.mono_placed (ℓ := ℓ) ha
      exact ⟨hlt, hfits, h.orphan a m ha⟩

/-- A root for a tree that has none in memory. -/
theorem Levelled.addRoot (hroot : s.tree.root.node = none)
    (hparent : n.getParent = none) (hlinks : ∀ link ∈ n.links, link.node = none) (root : MemTreeLink)
    (hnew : root.node = some s.tree.nextAddr) :
    Levelled (update level s.tree.nextAddr top) top ((s.addNode n).setRoot root).tree := by
  refine .of_placed (fun a ha => ?_) fun a m ha => ?_
  · obtain rfl : s.tree.nextAddr = a := Option.some.inj (hnew.symm.trans ha)
    exact ⟨lt_add_one _, update_self ..⟩
  · rw [setRoot_nodes, addNode_nodes] at ha
    rw [Levelled.Placed, setRoot_root, hnew, Option.some.injEq]
    split at ha
    case isTrue hx =>
      cases ha
      refine ⟨hx ▸ lt_add_one _, ⟨fun link hlink => .of_none (hlinks link hlink), fun q hq => ?_⟩,
        iff_of_true hparent hx.symm⟩
      rw [hparent] at hq
      cases hq
    case isFalse hx =>
      -- a tree without a root has no node without a parent
      have horphan := h.orphan a m ha
      rw [hroot] at horphan
      obtain ⟨hlt, hfits⟩ := h.mono_placed (ℓ := top) ha
      exact ⟨hlt, hfits, iff_of_false (fun hnone => by cases horphan.1 hnone) fun heq => hx heq.symm⟩
end

/-! ## Loading nodes -/

/-- The children of a node that was just loaded. -/
def unloaded (children : StaticVec (DevicePointer .treeNode × Option FileId) NODE_MAX_CHILD_COUNT) :
    Children :=
  StaticVec.collect (children.toList.map fun c => ({ node := none, devicePtr := some c.1 }, c.2))

/-- What a node on the device is loaded as. -/
def LoadedAs (parent : Option Addr) : TreeNode → MemTreeNode → Prop
  | .leave _, n => ∃ files, n = .leave parent files false false
  | .node children, n => n = .node parent (unloaded children) false false false

section Loading
variable {parent : Option Addr} {tn : TreeNode}

theorem node_unloaded {children : StaticVec (DevicePointer .treeNode × Option FileId) NODE_MAX_CHILD_COUNT}
    {c : MemTreeLink × Option FileId} (hc : c ∈ (unloaded children).toList) : c.1.node = none := by
  obtain ⟨d, -, rfl⟩ := mem_map.1 (mem_of_mem_take hc)
  rfl

section
variable (h : LoadedAs parent tn n)
include h

theorem LoadedAs.getParent : n.getParent = parent := by
  cases tn with
  | leave _ => obtain ⟨files, rfl⟩ := h; rfl
  | node _ => cases h; rfl

theorem LoadedAs.isLocked : n.isLocked = false := by
  cases tn with
  | leave _ => obtain ⟨files, rfl⟩ := h; rfl
  | node _ => cases h; rfl

theorem LoadedAs.node_none {link : MemTreeLink} (hlink : link ∈ n.links) : link.node = none := by
  cases tn with
  | leave _ =>
    obtain ⟨files, rfl⟩ := h
    exact absurd hlink not_mem_nil
  | node _ =>
    cases h
    obtain ⟨c, hc, rfl⟩ := mem_map.1 hlink
    exact node_unloaded hc
end

variable {ε : Type} {E : ε → Store D → Prop} {F : Prop}

/-- Only cells are made for the files of a leave. -/
theorem Store.meets_loadFiles : ∀ (gs : List FsFileNode) {s : Store D} {Q : List FileNode → Store D → Prop},
    (∀ fs cells nextCell, Q fs { s with tree := { s.tree with cells := cells, nextCell := nextCell } }) →
      (loadFiles gs : Prog (Store D) ε _).meets Q E F s
  | [], s, Q, hQ => hQ [] s.tree.cells s.tree.nextCell
  | g :: gs, s, Q, hQ => by
    simp only [loadFiles, newCell, meets_bind, meets_get, meets_modifyTree, meets_pure]
    exact meets_loadFiles gs fun fs cells nextCell => hQ _ cells nextCell

theorem Store.meets_newFrom {Q : MemTreeNode → Store D → Prop} (hQ : ∀ n cells nextCell, LoadedAs parent tn n →
      Q n { s with tree := { s.tree with cells := cells, nextCell := nextCell } }) :
    (newFrom tn parent : Prog (Store D) ε _).meets Q E F s := by
  cases tn with
  | leave files =>
    rw [newFrom, meets_bind]
    exact meets_loadFiles _ fun fs cells nextCell => hQ _ cells nextCell ⟨_, rfl⟩
  | node children => exact hQ _ s.tree.cells s.tree.nextCell rfl

variable [BlockDevice D Block]

theorem Store.meets_readNode {ptr : DevicePointer .treeNode} {Q : TreeNode → Store D → Prop}
    {E : FsError → Store D → Prop} :
    (onDevice (mapErr mapDeviceError (readPointer ptr)) : Prog (Store D) FsError TreeNode).meets Q E F s ↔
      (∀ tn dev, readPointer ptr s.device = .ok tn dev → Q tn { s with device := dev }) ∧
      (∀ e dev, readPointer ptr s.device = .err e dev → E (mapDeviceError e) { s with device := dev }) ∧
      (∀ f, readPointer ptr s.device = .fault f → F) := by
  rw [onDevice, meets_zoom, meets_mapErr, Prog.meets]
  cases readPointer ptr s.device with
  | ok tn dev => simp
  | err e dev => simp
  | fault f => simp

/-- **Resolving a child**: it is in memory, or it is loaded one level below, or its block cannot be
read. -/
theorem Levelled.meets_resolve_child {dirty : Bool} {i : ℕ} {c : MemTreeLink × Option FileId}
    {Q : Addr → Store D → Prop} {E : FsError → Store D → Prop} (h : Levelled level top s.tree)
    (ha : s.tree.nodes a = some (.node p cs dirty dc l)) (hc : cs.toList[i]? = some c)
    (hloaded : ∀ b, c.1.node = some b → Q b s)
    (hnew : ∀ ptr tn dev b n s' level', c.1.node = none → c.1.devicePtr = some ptr →
      readPointer ptr s.device = .ok tn dev → Grown level level' top s s' → s'.device = dev →
      level' b + 1 = level' a → s'.tree.nodes b = some n → LoadedAs (some a) tn n → Q b s')
    (herr : ∀ ptr e dev, c.1.node = none → c.1.devicePtr = some ptr →
      readPointer ptr s.device = .err e dev → E (mapDeviceError e) { s with device := dev })
    (hinvalid : c.1.node = none → c.1.devicePtr = none → F)
    (hfault : ∀ ptr f, c.1.node = none → c.1.devicePtr = some ptr → readPointer ptr s.device = .fault f → F) :
    (resolve (.child a i) (some a)).meets Q E F s := by
  rw [resolve, meets_bind, meets_getLink_child ha, hc]
  refine ⟨fun c' hc' => ?_, fun hnone => by cases hnone⟩
  obtain rfl : c = c' := Option.some.inj hc'
  rcases hnode : c.1.node with _ | b
  · simp only [meets_bind, meets_expect, meets_readNode]
    refine ⟨fun ptr hptr => ⟨fun tn dev hread => ?_, fun e dev hread => herr ptr e dev hnode hptr hread,
      fun f hread => hfault ptr f hnode hptr hread⟩, hinvalid hnode⟩
    refine meets_newFrom fun n cells nextCell hn => ?_
    rw [meets_allocNode]
    -- `s1` is the state before the new box, where only cells and the device are new
    set s1 : Store D := { s with
      tree := { s.tree with cells := cells, nextCell := nextCell }, device := dev } with hs1
    have h1 : Levelled level top s1.tree := h.congr rfl rfl rfl
    have hold : a < s1.tree.nextAddr := h.bound a _ ha
    have hlevel : level a - 1 + 1 = level a := by omega
    have hfits : NodeFits s1.tree.nextAddr level (level a - 1) n := by
      refine ⟨fun link hlink => .of_none (hn.node_none hlink), fun q hq => ?_⟩
      obtain rfl : a = q := Option.some.inj (hn.getParent.symm.trans hq)
      exact ⟨hold, hlevel.symm⟩
    have hadd := h1.addNode hfits (by rw [hn.getParent]; simp) hn.isLocked
    have hgrown : Grown level _ top s (s1.addNode n) := { hadd with }
    have ha2 : (s1.addNode n).tree.nodes a = some (.node p cs dirty dc l) := by
      rw [addNode_nodes_of_ne hold.ne]
      exact ha
    rw [meets_setLink_child ha2, hc]
    refine ⟨fun c' hc' => ?_, fun hnone => by cases hnone⟩
    obtain rfl : c = c' := Option.some.inj hc'
    obtain ⟨cs', hset, -⟩ := StaticVec.exists_setIdx (({ c.1 with node := some s1.tree.nextAddr } : MemTreeLink), c.2)
      (List.getElem?_eq_some_iff.1 hc).1
    rw [hset]
    refine ⟨fun cs'' hcs'' => ?_, fun f hf => by cases hf⟩
    obtain rfl : cs' = cs'' := Except.ok.inj hcs''
    have hlevels : update level s1.tree.nextAddr (level a - 1) s1.tree.nextAddr + 1 =
        update level s1.tree.nextAddr (level a - 1) a := by
      rw [update_self, update_of_ne hold.ne, hlevel]
    have hlinks : ∀ link ∈ (MemTreeNode.node p cs' dirty dc l).links,
        LinkFits (s1.addNode n).tree.nextAddr (update level s1.tree.nextAddr (level a - 1))
          (update level s1.tree.nextAddr (level a - 1) a) link := by
      intro link hlink
      obtain ⟨e, he, rfl⟩ := mem_map.1 hlink
      rcases StaticVec.mem_of_setIdx hset he with rfl | he
      · intro b hb
        obtain rfl : s1.tree.nextAddr = b := Option.some.inj hb
        exact ⟨lt_add_one _, hlevels⟩
      · exact hgrown.child ha2 he
    refine hnew ptr tn dev _ n _ _ hnode hptr hread (hgrown.assign ha2 rfl rfl hlinks) rfl hlevels ?_ hn
    rw [setNode_nodes_of_ne hold.ne', addNode_nodes_self]
  · exact hloaded b hnode
end Loading
end WasabiOS
