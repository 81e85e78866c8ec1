import WasabiOS.Wfs.MemTree.Ops

/-!
# Wfs/MemTree/Flush — writing the tree to the device, and its own checks

`flushLink` writes the node of a link if the node is dirty: to a fresh block, while the block it was
in is freed at once.  Children are visited if the node says that some of them are dirty.  A file's
block list is written with the leave that holds the file.

`assertValid` and `assertValidFull` are the checks the source makes of a tree, in the debug build and
in the tests.
-/

open Machinery Prog
namespace WasabiOS
namespace Store
variable {D ε : Type} [BlockDevice D Block]

/-! ## Flush -/

/-- `FileNode::write` -/
def writeFile (f : FileNode) : Prog (Store D) FsError FsFileNode := do
  match ← readCell f.blockData with
  | .onDevice head => return f.toFs head
  | .inMem list | .both list _ =>
    let head ← onBlocks list.write
    writeCell f.blockData (.both list head)
    return f.toFs head

/-- `FileNode::resolve_block_data` -/
def resolveBlockData (f : FileNode) : Prog (Store D) FsError Unit := do
  match ← readCell f.blockData with
  | .onDevice head =>
    let list ← onDevice (BlockList.read head)
    writeCell f.blockData (.inMem list)
  | .inMem _ | .both _ _ => return ()

/-- Write the files of a leave, in order. -/
def writeFiles : List FileNode → Prog (Store D) FsError (List FsFileNode)
  | [] => return []
  | f :: fs => do
    let fsFile ← writeFile f
    return fsFile :: (← writeFiles fs)

/-- The children as the device stores them: every one has a device pointer by now. -/
def deviceChildren : List (MemTreeLink × Option FileId) →
    Prog (Store D) ε (List (DevicePointer .treeNode × Option FileId))
  | [] => return []
  | (link, max) :: rest => do
    let ptr ← expect link.devicePtr
    return (ptr, max) :: (← deviceChildren rest)

/-- The node as the device stores it. -/
def treeNodeOf : MemTreeNode → Prog (Store D) FsError TreeNode
  | .node _ children _ _ _ => do return .node (StaticVec.collect (← deviceChildren children.toList))
  | .leave _ files _ _ => do return .leave (StaticVec.collect (← writeFiles files.toList))

/-- Write a dirty node to a new block and free the old one. -/
def writeNode (place : LinkPlace) (a : Addr) : Prog (Store D) FsError Unit := do
  let lba ← onAllocator BlockAllocator.allocateBlock
  let link ← getLink place
  setLink place { link with devicePtr := some ⟨lba⟩ }
  match link.devicePtr with
  | some old => onAllocator (BlockAllocator.freeBlock old.lba)
  | none => pure ()
  let treeNode ← treeNodeOf (← deref a)
  onDevice (mapErr mapDeviceError (BlockDevice.writeBlock lba (.treeNode treeNode)))
  assign a ((← deref a).setDirty false)

/-- `dirty_children = false` -/
def clearDirtyChildren (a : Addr) : Prog (Store D) ε Unit := do
  match ← deref a with
  | .node p c d _ l => assign a (.node p c d false l)
  | .leave .. => return ()

/-- Run `m` with the node locked: the guard releases it on both ways out. -/
def withNodeLock {α : Type} (a : Addr) (m : Prog (Store D) ε α) : Prog (Store D) ε α := do
  lockNode a
  let result ← attempt m
  unlockNode a
  ofExcept result

/-- Flush a list of links, one after another. -/
def flushAll (flush : LinkPlace → Prog (Store D) FsError Unit) :
    List LinkPlace → Prog (Store D) FsError Unit
  | [] => return ()
  | place :: rest => do
    flush place
    flushAll flush rest

/-- `MemTreeLink::flush_to_device` -/
def flushLink : (fuel : ℕ) → LinkPlace → Prog (Store D) FsError Unit
  | 0, _ => crash .diverge
  | fuel + 1, place => do
    let link ← getLink place
    match link.node with
    | none => assert link.devicePtr.isSome
    | some a =>
      withNodeLock a do
        match ← deref a with
        | .node _ children dirty dirtyChildren _ =>
          if dirtyChildren then
            flushAll (flushLink fuel) ((List.range children.len).map (.child a))
            clearDirtyChildren a
          else pure ()
          if dirty then writeNode place a else pure ()
        | .leave _ _ dirty _ => if dirty then writeNode place a else pure ()

/-- `MemTree::flush_to_device` -/
def flushToDevice : Prog (Store D) FsError (DevicePointer .treeNode) := do
  lockRoot
  let result ← attempt (flushLink ((← Prog.get).tree.nextAddr + 1) .root)
  let rootPtr ← expect (← getLink .root).devicePtr
  unlockRoot
  ofExcept result
  return rootPtr

/-! ## Checks -/

/-- The windows check on the largest ids of the children. -/
def maxesValid : List (Option FileId) → Bool
  | some first :: some second :: rest => first < second && maxesValid (some second :: rest)
  | some _ :: none :: rest => maxesValid (none :: rest)
  | none :: _ :: _ => false
  | _ => true

/-- `is_sorted_by_key(|f| f.id)` -/
def idsSorted : List FileId → Bool
  | first :: second :: rest => first ≤ second && idsSorted (second :: rest)
  | _ => true

/-- Run a check on every address. -/
def checkAll (check : Addr → Prog (Store D) ε Unit) : List Addr → Prog (Store D) ε Unit
  | [] => return ()
  | a :: rest => do
    check a
    checkAll check rest

/-- `MemTreeNode::assert_valid` -/
def assertValidNode : (fuel : ℕ) → (parent : Option Addr) → Addr → Prog (Store D) ε Unit
  | 0, _, _ => crash .diverge
  | fuel + 1, parent, a => do
    lockNode a
    let node ← deref a
    assert (parent = node.getParent)
    assert (parent.isNone || node.len ≥ node.cap / 2)
    match node with
    | .node _ children _ _ _ =>
      assert (maxesValid (children.toList.map Prod.snd))
      let last ← expect children.toList.getLast?
      assert last.2.isNone
      checkAll (assertValidNode fuel (some a)) (children.toList.filterMap fun c => c.1.node)
    | .leave _ files _ _ => assert (idsSorted (files.toList.map FileNode.id))
    unlockNode a

/-- `MemTree::assert_valid` -/
def assertValid : Prog (Store D) ε Unit := do
  lockRoot
  let tree := (← Prog.get).tree
  let root ← expect tree.root.node
  assertValidNode (tree.nextAddr + 1) none root
  unlockRoot

/-- The nodes in memory, level by level (`MemTreeNodeIter`). -/
def iterNodes : (fuel : ℕ) → (open_ : List Addr) → Prog (Store D) ε (List MemTreeNode)
  | _, [] => return []
  | 0, _ :: _ => crash .diverge
  | fuel + 1, a :: rest => do
    let node ← deref a
    let children := match node with
      | .node _ children _ _ _ => children.toList.filterMap fun c => c.1.node
      | .leave .. => []
    return node :: (← iterNodes fuel (rest ++ children))

/-- Leaves only come after all inner nodes, and no lock is held. -/
def levelsValid : (foundLeave : Bool) → List MemTreeNode → Bool
  | foundLeave, [] => foundLeave
  | foundLeave, .node _ _ _ _ lock :: rest => !lock && !foundLeave && levelsValid false rest
  | _, .leave _ _ _ lock :: rest => !lock && levelsValid true rest

/-- `MemTree::assert_valid_full` -/
def assertValidFull : Prog (Store D) ε Unit := do
  let tree := (← Prog.get).tree
  let nodes ← iterNodes (tree.nextAddr + 1) tree.root.node.toList
  assert (levelsValid false nodes)
  assertValid
end Store
end WasabiOS
