import WasabiOS.Machinery.KeyedList
import WasabiOS.Wfs.MemTree.Levels

/-!
# Wfs/MemTree/Content — what a tree holds, loaded or not

A link leads to a node in memory, or else to a block that encodes one; `Store.peek` looks at either in
the same way.  `Store.Denotes` says, by recursion on the height, that what a link leads to is a search
tree with certain files: separators increase, every id lies in the range the separators leave to it, and
the leaves are sorted.  Any part of the tree may be unloaded.

The height is bounded by the addresses in memory and on the device, since nodes of different heights are
at different places (`Denotes.height_lt`), so that the walks have fuel enough.
-/

open Machinery Machinery.Keyed
namespace WasabiOS
open List Option

/-- A file as everybody sees it who holds its node: the node, without the name of the cell, and the
block list in the cell. -/
@[ext] structure StoredFile where
  node : FileNode
  blockList : Option BlockListAccess
  deriving DecidableEq, Repr

/-- A file node in memory. -/
def FileNode.stored (cells : CellId → Option BlockListAccess) (f : FileNode) : StoredFile where
  node := { f with blockData := 0 }
  blockList := cells f.blockData

/-- A file node on the device, as it will be loaded. -/
def FsFileNode.stored (g : FsFileNode) : StoredFile where
  node := .ofFs g 0
  blockList := some (.onDevice g.blockData)

/-- What a node holds. -/
inductive NodeContent where
  | leave (files : List StoredFile)
  | node (children : List (MemTreeLink × Option FileId))

def MemTreeNode.content (cells : CellId → Option BlockListAccess) : MemTreeNode → NodeContent
  | leave _ files _ _ => .leave (files.toList.map (FileNode.stored cells))
  | node _ children _ _ _ => .node children.toList

def TreeNode.content : TreeNode → NodeContent
  | leave files => .leave (files.toList.map FsFileNode.stored)
  | node children => .node (children.toList.map fun c => ({ node := none, devicePtr := some c.1 }, c.2))

variable {D : Type} [BlockDevice D Block] [BlockContents D Block]
open BlockContents (blocks)

/-- The node a link leads to, in memory or else on the device. -/
def Store.peek (s : Store D) (link : MemTreeLink) : Option NodeContent :=
  match link.node with
  | some a => (s.tree.nodes a).map (MemTreeNode.content s.tree.cells)
  | none => link.devicePtr.bind fun p =>
      ((blocks s.device p.lba).read .treeNode).map TreeNode.content

/-! ## Search trees -/

/-- The children of an inner node whose ids lie in `(lo, hi]`: `P` holds of every child with its files
and the range its separators give it. -/
def Spans (P : (lo hi : ℕ) → MemTreeLink → List StoredFile → Prop) :
    (lo hi : ℕ) → List (MemTreeLink × Option FileId) → List StoredFile → Prop
  | _, _, [], _ => False
  | lo, hi, (link, none) :: rest, files => rest = [] ∧ P lo hi link files
  | lo, hi, (link, some m) :: rest, files => lo < m.get ∧ m.get ≤ hi ∧
      ∃ first others, files = first ++ others ∧ P lo m.get link first ∧ Spans P m.get hi rest others

/-- The link leads to a search tree of this height, with these files, whose ids lie in `(lo, hi]`. -/
def Store.Denotes (s : Store D) : (height lo hi : ℕ) → MemTreeLink → (files : List StoredFile) → Prop
  | 0, lo, hi, link, files => s.peek link = some (.leave files) ∧
      Sorted (fun f => f.node.id) files ∧ ∀ f ∈ files, lo < f.node.id.get ∧ f.node.id.get ≤ hi
  | height + 1, lo, hi, link, files => ∃ children, s.peek link = some (.node children) ∧
      Spans (s.Denotes height) lo hi children files

variable {P P' : (lo hi : ℕ) → MemTreeLink → List StoredFile → Prop}
  {R : MemTreeLink × Option FileId → MemTreeLink × Option FileId → Prop}

theorem Spans.of_forall₂ (hR : ∀ {c c'}, R c c' → c'.2 = c.2 ∧
      ∀ {lo hi files}, P lo hi c.1 files → P' lo hi c'.1 files) :
    ∀ {lo hi : ℕ} {cs cs' : List (MemTreeLink × Option FileId)} {files : List StoredFile},
      List.Forall₂ R cs cs' → Spans P lo hi cs files → Spans P' lo hi cs' files
  | _, _, [], _, _, _, h => h.elim
  | lo, hi, (link, none) :: cs, (link', max') :: cs', files, .cons hc hcs, h => by
    obtain ⟨rfl, hP⟩ := hR hc
    obtain ⟨rfl, h⟩ := h
    cases hcs
    exact ⟨rfl, hP h⟩
  | lo, hi, (link, some m) :: cs, (link', max') :: cs', files, .cons hc hcs, h => by
    obtain ⟨rfl, hP⟩ := hR hc
    obtain ⟨hlo, hhi, first, others, rfl, hfirst, hothers⟩ := h
    exact ⟨hlo, hhi, first, others, rfl, hP hfirst, Spans.of_forall₂ hR hcs hothers⟩

/-- The files of the children are in the range of the node. -/
theorem Spans.range (hP : ∀ {lo hi link files}, P lo hi link files →
      ∀ f ∈ files, lo < f.node.id.get ∧ f.node.id.get ≤ hi) :
    ∀ {lo hi : ℕ} {cs : List (MemTreeLink × Option FileId)} {files : List StoredFile},
      Spans P lo hi cs files → ∀ f ∈ files, lo < f.node.id.get ∧ f.node.id.get ≤ hi
  | _, _, [], _, h => h.elim
  | lo, hi, (link, none) :: cs, files, h => hP h.2
  | lo, hi, (link, some m) :: cs, files, h => by
    obtain ⟨hlo, hhi, first, others, rfl, hfirst, hothers⟩ := h
    intro f hf
    rcases mem_append.1 hf with hf | hf
    · have := hP hfirst f hf
      exact ⟨this.1, this.2.trans hhi⟩
    · have := Spans.range hP hothers f hf
      exact ⟨hlo.trans this.1, this.2⟩

/-- **Routing**: an id in the range of a node is, if at all, below the first child whose separator is
not below it. -/
theorem Spans.route {id : FileId} (hP : ∀ {lo hi link files}, P lo hi link files →
      ∀ f ∈ files, lo < f.node.id.get ∧ f.node.id.get ≤ hi) :
    ∀ {lo hi : ℕ} {cs : List (MemTreeLink × Option FileId)} {files : List StoredFile},
      Spans P lo hi cs files → lo < id.get → id.get ≤ hi →
      ∃ i c lo' hi' sub, cs.findIdx? (fun c => id ≤ c.2.getD FileId.MAX) = some i ∧
        cs[i]? = some c ∧ P lo' hi' c.1 sub ∧ lo' < id.get ∧ id.get ≤ hi' ∧
        ∀ f : StoredFile, f.node.id = id → (f ∈ sub ↔ f ∈ files)
  | _, _, [], _, h, _, _ => h.elim
  | lo, hi, (link, none) :: cs, files, h, hlo, hhi => by
    have hle : id ≤ FileId.MAX := FileId.le_MAX id
    refine ⟨0, (link, none), lo, hi, files, ?_, rfl, h.2, hlo, hhi, fun _ _ => Iff.rfl⟩
    simp [findIdx?_cons, hle]
  | lo, hi, (link, some m) :: cs, files, h, hlo, hhi => by
    obtain ⟨-, -, first, others, rfl, hfirst, hothers⟩ := h
    by_cases hle : id ≤ m
    · refine ⟨0, (link, some m), lo, m.get, first, ?_, rfl, hfirst, hlo, hle, fun f hf => ?_⟩
      · simp [findIdx?_cons, hle]
      · -- the other children hold larger ids only
        have hnot : f ∉ others := fun hmem => by
          have := (Spans.range hP hothers f hmem).1
          rw [hf] at this
          exact absurd hle (not_le.2 this)
        rw [mem_append, or_iff_left hnot]
    · obtain ⟨i, c, lo', hi', sub, hfind, hc, hsub, hlo', hhi', hmem⟩ := Spans.route hP hothers (not_le.1 hle) hhi
      refine ⟨i + 1, c, lo', hi', sub, ?_, hc, hsub, hlo', hhi', fun f hf => ?_⟩
      · simp [findIdx?_cons, hle, hfind]
      · have hnot : f ∉ first := fun hmem => by
          have := (hP hfirst f hmem).2
          rw [hf] at this
          exact hle this
        rw [mem_append, or_iff_right hnot, hmem f hf]

/-- There is a child. -/
theorem Spans.exists_child {lo hi : ℕ} {cs : List (MemTreeLink × Option FileId)}
    {files : List StoredFile} (h : Spans P lo hi cs files) :
    ∃ c ∈ cs, ∃ lo hi files, P lo hi c.1 files := by
  rcases cs with _ | ⟨⟨link, _ | m⟩, cs⟩
  · exact h.elim
  · exact ⟨_, mem_cons_self, lo, hi, files, h.2⟩
  · obtain ⟨-, -, first, others, -, hfirst, -⟩ := h
    exact ⟨_, mem_cons_self, lo, m.get, first, hfirst⟩

/-- Every child has a range and files. -/
theorem Spans.exists_of_mem : ∀ {lo hi : ℕ} {cs : List (MemTreeLink × Option FileId)}
    {files : List StoredFile} {c : MemTreeLink × Option FileId}, Spans P lo hi cs files → c ∈ cs →
      ∃ lo hi files, P lo hi c.1 files
  | _, _, [], _, _, h, _ => h.elim
  | lo, hi, (link, none) :: cs, files, c, h, hc => by
    obtain ⟨rfl, h⟩ := h
    obtain rfl := mem_singleton.1 hc
    exact ⟨lo, hi, files, h⟩
  | lo, hi, (link, some m) :: cs, files, c, h, hc => by
    obtain ⟨-, -, first, others, -, hfirst, hothers⟩ := h
    rcases mem_cons.1 hc with rfl | hc
    · exact ⟨lo, m.get, first, hfirst⟩
    · exact Spans.exists_of_mem hothers hc

/-! ## The place of a tree -/

namespace Store
variable {s s' : Store D} {height lo hi : ℕ} {link link' : MemTreeLink} {files : List StoredFile}

theorem peek_some {a : Addr} (h : link.node = some a) :
    s.peek link = (s.tree.nodes a).map (MemTreeNode.content s.tree.cells) := by
  simp only [peek, h]

theorem peek_none (h : link.node = none) : s.peek link = link.devicePtr.bind fun p =>
    ((blocks s.device p.lba).read .treeNode).map TreeNode.content := by
  simp only [peek, h]

namespace Denotes

theorem congr_peek (h : s.Denotes height lo hi link files) (hpeek : s.peek link' = s.peek link) :
    s.Denotes height lo hi link' files := by
  cases height with
  | zero => exact ⟨hpeek.trans h.1, h.2⟩
  | succ height =>
    obtain ⟨cs, hcs, hspans⟩ := h
    exact ⟨cs, hpeek.trans hcs, hspans⟩

theorem exists_peek (h : s.Denotes height lo hi link files) : ∃ content, s.peek link = some content := by
  cases height with
  | zero => exact ⟨_, h.1⟩
  | succ height =>
    obtain ⟨cs, hcs, -⟩ := h
    exact ⟨_, hcs⟩

theorem range : ∀ {height lo hi : ℕ} {link : MemTreeLink} {files : List StoredFile},
    s.Denotes height lo hi link files → ∀ f ∈ files, lo < f.node.id.get ∧ f.node.id.get ≤ hi
  | 0, _, _, _, _, h => h.2.2
  | _ + 1, _, _, _, _, h => by
    obtain ⟨cs, -, hspans⟩ := h
    exact hspans.range fun h => range h

/-- A state in which every link leads to the same, or to children that hold the same. -/
theorem simulate (hleave : ∀ {link files}, s.peek link = some (.leave files) → s'.peek link = some (.leave files))
    (hnode : ∀ {link cs}, s.peek link = some (.node cs) → ∃ cs', s'.peek link = some (.node cs') ∧
      List.Forall₂ (fun c c' => c'.2 = c.2 ∧ ∀ {height lo hi files},
        s.Denotes height lo hi c.1 files → s.Denotes height lo hi c'.1 files) cs cs') :
    ∀ {height lo hi : ℕ} {link : MemTreeLink} {files : List StoredFile},
      s.Denotes height lo hi link files → s'.Denotes height lo hi link files
  | 0, _, _, _, _, h => ⟨hleave h.1, h.2⟩
  | height + 1, _, _, _, _, h => by
    obtain ⟨cs, hcs, hspans⟩ := h
    obtain ⟨cs', hcs', hall⟩ := hnode hcs
    refine ⟨cs', hcs', hspans.of_forall₂ (fun hc => ⟨hc.1, fun h => ?_⟩) hall⟩
    exact simulate hleave hnode (hc.2 h)

/-- A state in which every link leads to the same. -/
theorem of_peek (hpeek : ∀ {link content}, s.peek link = some content → s'.peek link = some content)
    (h : s.Denotes height lo hi link files) : s'.Denotes height lo hi link files := by
  refine h.simulate (fun hp => hpeek hp) fun hp => ⟨_, hpeek hp, ?_⟩
  exact forall₂_same.2 fun _ _ => ⟨rfl, fun h => h⟩

/-- Links that lead to the same node lead to the same height. -/
theorem height_unique : ∀ {height height' lo hi lo' hi' : ℕ} {link link' : MemTreeLink}
    {files files' : List StoredFile}, s.Denotes height lo hi link files →
      s.Denotes height' lo' hi' link' files' → s.peek link = s.peek link' → height = height'
  | 0, 0, _, _, _, _, _, _, _, _, _, _, _ => rfl
  | 0, _ + 1, _, _, _, _, _, _, _, _, h, ⟨cs, hcs, _⟩, heq => by
    rw [h.1, hcs] at heq
    cases heq
  | _ + 1, 0, _, _, _, _, _, _, _, _, ⟨cs, hcs, _⟩, h, heq => by
    rw [h.1, hcs] at heq
    cases heq
  | height + 1, height' + 1, _, _, _, _, _, _, _, _, ⟨cs, hcs, hspans⟩, ⟨cs', hcs', hspans'⟩, heq => by
    rw [hcs, hcs', Option.some.injEq, NodeContent.node.injEq] at heq
    obtain ⟨c, hc, lo, hi, files, h⟩ := hspans.exists_child
    obtain ⟨lo', hi', files', h'⟩ := hspans'.exists_of_mem (heq ▸ hc)
    rw [height_unique h h' rfl]

/-- There is a subtree of every smaller height. -/
theorem exists_below : ∀ {height lo hi : ℕ} {link : MemTreeLink} {files : List StoredFile},
    s.Denotes height lo hi link files → ∀ k ≤ height, ∃ lo hi link files, s.Denotes k lo hi link files
  | 0, lo, hi, link, files, h, k, hk => by
    obtain rfl : k = 0 := Nat.le_zero.1 hk
    exact ⟨lo, hi, link, files, h⟩
  | height + 1, lo, hi, link, files, h, k, hk => by
    rcases Nat.le_succ_iff.1 hk with hk | rfl
    · obtain ⟨cs, -, hspans⟩ := h
      obtain ⟨c, -, lo', hi', files', h'⟩ := hspans.exists_child
      exact exists_below h' k hk
    · exact ⟨lo, hi, link, files, h⟩
end Denotes

/-- A number for the place of a node: its address, or that of its block behind all addresses. -/
def placeOf (s : Store D) (link : MemTreeLink) : ℕ :=
  match link.node with
  | some a => a
  | none => s.tree.nextAddr + (link.devicePtr.elim 0 fun p => p.lba.get)

section
variable (hbound : ∀ a n, s.tree.nodes a = some n → a < s.tree.nextAddr)
include hbound

theorem placeOf_lt {content : NodeContent} (h : s.peek link = some content) :
    s.placeOf link < s.tree.nextAddr + LBA.addressCount := by
  rcases hnode : link.node with _ | a
  · rw [peek_none hnode] at h
    obtain ⟨p, hp, -⟩ := bind_eq_some_iff.1 h
    simp only [placeOf, hnode, hp, elim_some]
    exact Nat.add_lt_add_left p.lba.get_lt _
  · rw [peek_some hnode] at h
    obtain ⟨n, hn, -⟩ := map_eq_some_iff.1 h
    simp only [placeOf, hnode]
    exact Nat.lt_add_right _ (hbound a n hn)

/-- At one place there is one node. -/
theorem peek_eq_of_placeOf_eq {content content' : NodeContent} (h : s.peek link = some content)
    (h' : s.peek link' = some content') (heq : s.placeOf link = s.placeOf link') :
    s.peek link = s.peek link' := by
  have hlt : ∀ {link : MemTreeLink} {content a}, s.peek link = some content → link.node = some a →
      a < s.tree.nextAddr := by
    intro link content a h hnode
    rw [peek_some hnode] at h
    obtain ⟨n, hn, -⟩ := map_eq_some_iff.1 h
    exact hbound a n hn
  rcases hnode : link.node with _ | a <;> rcases hnode' : link'.node with _ | a'
  · rw [peek_none hnode] at h ⊢
    rw [peek_none hnode'] at h' ⊢
    obtain ⟨p, hp, -⟩ := bind_eq_some_iff.1 h
    obtain ⟨p', hp', -⟩ := bind_eq_some_iff.1 h'
    simp only [placeOf, hnode, hnode', hp, hp', elim_some, add_left_cancel_iff] at heq
    rw [hp, hp', DevicePointer.ext (LBA.ext heq)]
  · simp only [placeOf, hnode, hnode'] at heq
    exact absurd (hlt h' hnode') (heq ▸ not_lt.2 le_self_add)
  · simp only [placeOf, hnode, hnode'] at heq
    exact absurd (hlt h hnode) (heq ▸ not_lt.2 le_self_add)
  · simp only [placeOf, hnode, hnode'] at heq
    rw [peek_some hnode, peek_some hnode', heq]
end

/-- **Trees are not higher than there are places for nodes.** -/
theorem Denotes.height_lt (h : s.Denotes height lo hi link files)
    (hbound : ∀ a n, s.tree.nodes a = some n → a < s.tree.nextAddr) :
    height < s.tree.nextAddr + LBA.addressCount := by
  choose lo hi link files hbelow using fun k : Fin (height + 1) => h.exists_below k (Nat.lt_succ_iff.1 k.isLt)
  have hlt : ∀ k, s.placeOf (link k) < s.tree.nextAddr + LBA.addressCount := fun k => by
    obtain ⟨content, hcontent⟩ := (hbelow k).exists_peek
    exact placeOf_lt hbound hcontent
  -- subtrees of different heights are at different places
  have hinj : Function.Injective fun k : Fin (height + 1) =>
      (⟨s.placeOf (link k), hlt k⟩ : Fin (s.tree.nextAddr + LBA.addressCount)) := by
    intro i j hij
    obtain ⟨content, hcontent⟩ := (hbelow i).exists_peek
    obtain ⟨content', hcontent'⟩ := (hbelow j).exists_peek
    have hpeek := peek_eq_of_placeOf_eq hbound hcontent hcontent' (Fin.mk.inj hij)
    exact Fin.ext ((hbelow i).height_unique (hbelow j) hpeek)
  have hcard := Fintype.card_le_of_injective _ hinj
  rw [Fintype.card_fin, Fintype.card_fin] at hcard
  exact hcard
end Store
end WasabiOS
