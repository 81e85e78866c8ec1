import WasabiOS.Wfs.MemStructs

/-!
# Wfs/MemTree/Memory — the nodes of the file tree in memory

Tree nodes are boxed, and every node points back at its parent with a raw pointer.  The model keeps
the nodes at addresses: a `MemTreeLink` owns the address of its node, a raw pointer is an address, and
following one that was dropped is undefined.  Addresses are never used twice.

`Store D` is everything a tree operation touches: the tree, the block allocator and the device.  A
lock is a flag: there is one core, where taking a held lock and releasing a free one are panics.
-/

open Machinery Prog
namespace WasabiOS

/-- The address of a tree node. -/
abbrev Addr := ℕ

/-- A pointer used within a [MemTree].  The data may or may not be loaded into memory. -/
structure MemTreeLink where
  node : Option Addr
  /-- The device pointer where the data is stored; `none` if the node was just created -/
  devicePtr : Option (DevicePointer .treeNode)
  deriving DecidableEq, Repr

/-- The children of an inner node: links, and the largest file id of the subtree, which is `none` for
the last child. -/
abbrev Children := StaticVec (MemTreeLink × Option FileId) NODE_MAX_CHILD_COUNT

/-- The files of a leave, sorted by their id. -/
abbrev Files := StaticVec FileNode LEAVE_MAX_FILE_COUNT

/-- A node within a [MemTree] -/
inductive MemTreeNode where
  | node (parent : Option Addr) (children : Children) (dirty dirtyChildren lock : Bool)
  | leave (parent : Option Addr) (files : Files) (dirty lock : Bool)
  deriving DecidableEq, Repr

namespace MemTreeNode

def hasDirtyLeaves : MemTreeNode → Bool
  | node _ _ dirty dirtyChildren _ => dirty || dirtyChildren
  | leave _ _ dirty _ => dirty

def setDirty (value : Bool) : MemTreeNode → MemTreeNode
  | node p c _ dc l => node p c value dc l
  | leave p f _ l => leave p f value l

def isLocked : MemTreeNode → Bool
  | node _ _ _ _ l => l
  | leave _ _ _ l => l

def setLock (value : Bool) : MemTreeNode → MemTreeNode
  | node p c d dc _ => node p c d dc value
  | leave p f d _ => leave p f d value

def len : MemTreeNode → ℕ
  | node _ c _ _ _ => c.len
  | leave _ f _ _ => f.len

def cap : MemTreeNode → ℕ
  | node _ c _ _ _ => c.capacity
  | leave _ f _ _ => f.capacity

def getParent : MemTreeNode → Option Addr
  | node p _ _ _ _ => p
  | leave p _ _ _ => p

def setParent (parent : Option Addr) : MemTreeNode → MemTreeNode
  | node _ c d dc l => node parent c d dc l
  | leave _ f d l => leave parent f d l
end MemTreeNode

/-- An in memory view of the on device file tree, with the memory its nodes and the block lists of its
files are in -/
structure MemTree where
  root : MemTreeLink
  rootLock : Bool
  nodes : Addr → Option MemTreeNode
  nextAddr : Addr
  cells : CellId → Option BlockListAccess
  nextCell : CellId

/-- The tree, the allocator of the blocks it is written to, and the device. -/
structure Store (D : Type) where
  tree : MemTree
  allocator : BlockAllocator
  device : D

/-- Where a link is stored. -/
inductive LinkPlace where
  | root
  | child (node : Addr) (index : ℕ)
  deriving DecidableEq, Repr

namespace Store
variable {D ε α : Type}

def onDevice (m : Prog D ε α) : Prog (Store D) ε α := zoom Store.device (fun d s => { s with device := d }) m

def onAllocator (m : Prog BlockAllocator ε α) : Prog (Store D) ε α :=
  zoom Store.allocator (fun a s => { s with allocator := a }) m

def onBlocks (m : Prog (BlockAllocator × D) ε α) : Prog (Store D) ε α := zoom (fun s => (s.allocator, s.device))
    (fun p s => { s with allocator := p.1, device := p.2 }) m

def modifyTree (f : MemTree → MemTree) : Prog (Store D) ε Unit := Prog.modify fun s => { s with tree := f s.tree }

/-! ## Nodes -/

/-- Follow a pointer to a node. -/
def deref (a : Addr) : Prog (Store D) ε MemTreeNode := do
  match (← Prog.get).tree.nodes a with
  | some n => return n
  | none => crash .undefined

/-- Overwrite a node. -/
def assign (a : Addr) (n : MemTreeNode) : Prog (Store D) ε Unit :=
  modifyTree fun t => { t with nodes := Function.update t.nodes a (some n) }

/-- `Box::try_new`, which succeeds. -/
def allocNode (n : MemTreeNode) : Prog (Store D) ε Addr := do
  let s ← Prog.get
  let a := s.tree.nextAddr
  modifyTree fun t => { t with nodes := Function.update t.nodes a (some n), nextAddr := a + 1 }
  return a

/-- Drop a box. -/
def dropNode (a : Addr) : Prog (Store D) ε Unit :=
  modifyTree fun t => { t with nodes := Function.update t.nodes a none }

def lockNode (a : Addr) : Prog (Store D) ε Unit := do
  let n ← deref a
  assert (!n.isLocked)
  assign a (n.setLock true)

def unlockNode (a : Addr) : Prog (Store D) ε Unit := do
  let n ← deref a
  assert n.isLocked
  assign a (n.setLock false)

def lockRoot : Prog (Store D) ε Unit := do
  assert (!(← Prog.get).tree.rootLock)
  modifyTree fun t => { t with rootLock := true }

def unlockRoot : Prog (Store D) ε Unit := do
  assert (← Prog.get).tree.rootLock
  modifyTree fun t => { t with rootLock := false }

/-! ## Links -/

/-- The children of an inner node. -/
def getChildren (a : Addr) : Prog (Store D) ε Children := do
  match ← deref a with
  | .node _ children _ _ _ => return children
  | .leave .. => Prog.panic

def setChildren (a : Addr) (children : Children) : Prog (Store D) ε Unit := do
  match ← deref a with
  | .node p _ d dc l => assign a (.node p children d dc l)
  | .leave .. => Prog.panic

def getLink : LinkPlace → Prog (Store D) ε MemTreeLink
  | .root => do return (← Prog.get).tree.root
  | .child a i => do
    let children ← getChildren a
    let child ← expect children.toList[i]?
    return child.1

def setLink : LinkPlace → MemTreeLink → Prog (Store D) ε Unit
  | .root, link => modifyTree fun t => { t with root := link }
  | .child a i, link => do
    let children ← getChildren a
    let child ← expect children.toList[i]?
    setChildren a (← lift (children.setIdx i (link, child.2)))

/-- The largest id below a child, in its parent. -/
def getMax (a : Addr) (i : ℕ) : Prog (Store D) ε (Option FileId) := do
  let children ← getChildren a
  let child ← expect children.toList[i]?
  return child.2

def setMax (a : Addr) (i : ℕ) (max : Option FileId) : Prog (Store D) ε Unit := do
  let children ← getChildren a
  let child ← expect children.toList[i]?
  setChildren a (← lift (children.setIdx i (child.1, max)))

/-! ## Block lists of files -/

/-- `ReadWriteCell::new` -/
def newCell (access : BlockListAccess) : Prog (Store D) ε CellId := do
  let s ← Prog.get
  let c := s.tree.nextCell
  modifyTree fun t => { t with cells := Function.update t.cells c (some access), nextCell := c + 1 }
  return c

def readCell (c : CellId) : Prog (Store D) ε BlockListAccess := do
  match (← Prog.get).tree.cells c with
  | some access => return access
  | none => crash .undefined

def writeCell (c : CellId) (access : BlockListAccess) : Prog (Store D) ε Unit :=
  modifyTree fun t => { t with cells := Function.update t.cells c (some access) }
end Store
end WasabiOS
