import WasabiOS.Wfs.MemTree.Memory

/-!
# Wfs/MemTree/Ops — find, insert and delete

The tree is walked from the root to the leave that should hold an id; a link that is not in memory is
loaded from the device on the way.  A reader holds the locks of two neighbouring levels, a writer those
of the whole path, which `unlockUpwards` releases along the parent pointers.  An insert into a full
leave splits it and hands the new right half to the parent; a delete that leaves less than half fills
up from a sibling or merges with it.

Loops along the tree and up the parents carry fuel: more levels than there are nodes in memory and
block addresses together, or more parents than nodes, and the walk runs in a circle.
-/

open Machinery Prog
namespace WasabiOS
namespace MemTree

/-- Creates a new empty [MemTree] -/
def empty : MemTree where
  root := { node := some 0, devicePtr := none }
  rootLock := false
  nodes := Function.update (fun _ => none) 0 (some (.leave none StaticVec.new true false))
  nextAddr := 1
  cells := fun _ => none
  nextCell := 0

/-- Creates a new [MemTree] that is an invalid state: the root node is neither available in mem nor on
device -/
def invalid : MemTree where
  root := { node := none, devicePtr := none }
  rootLock := false
  nodes := fun _ => none
  nextAddr := 0
  cells := fun _ => none
  nextCell := 0
end MemTree

namespace Store
variable {D ε : Type} [BlockDevice D Block]

/-- Sets the device ptr for the root node -/
def setRootDevicePtr (ptr : DevicePointer .treeNode) : Prog (Store D) ε Unit := do
  let root := (← Prog.get).tree.root
  assert root.devicePtr.isNone
  assert root.node.isNone
  modifyTree fun t => { t with root := { root with devicePtr := some ptr } }

/-! ## Loading -/

/-- The files of a leave on the device, each with a cell for its block list. -/
def loadFiles : List FsFileNode → Prog (Store D) ε (List FileNode)
  | [] => return []
  | f :: fs => do
    let c ← newCell (.onDevice f.blockData)
    return .ofFs f c :: (← loadFiles fs)

/-- `MemTreeNode::new_from` -/
def newFrom (deviceNode : TreeNode) (parent : Option Addr) : Prog (Store D) ε MemTreeNode :=
  match deviceNode with
  | .leave files => do
    return .leave parent (StaticVec.collect (← loadFiles files.toList)) false false
  | .node children =>
    return .node parent (StaticVec.collect (children.toList.map fun c =>
      ({ node := none, devicePtr := some c.1 }, c.2))) false false false

/-- Ensures that the link data is loaded into memory; returns the node's address. -/
def resolve (place : LinkPlace) (parentNode : Option Addr) : Prog (Store D) FsError Addr := do
  let link ← getLink place
  match link.node with
  | some a => return a
  | none =>
    let devicePtr ← expect link.devicePtr
    let deviceNode : TreeNode ← onDevice (mapErr mapDeviceError (readPointer devicePtr))
    let a ← allocNode (← newFrom deviceNode parentNode)
    setLink place { link with node := some a }
    return a

/-! ## Finding the leave -/

/-- The first child whose largest id is not below `id`. -/
def routeIndex (id : FileId) (children : Children) : Option ℕ :=
  children.toList.findIdx? fun c => id ≤ c.2.getD FileId.MAX

/-- The loop of `find_leave`, from a locked node down; `isMut` is the guard's borrow type. -/
def descend (isMut : Bool) (id : FileId) : (fuel : ℕ) → Addr → Prog (Store D) FsError Addr
  | 0, _ => crash .diverge
  | fuel + 1, a => do
    match ← deref a with
    | .leave .. => return a
    | .node parent children dirty dirtyChildren lock =>
      -- a writer marks every node on its way
      assign a (.node parent children dirty (dirtyChildren || isMut) lock)
      let i ← expect (routeIndex id children)
      let child ← resolve (.child a i) (some a)
      lockNode child
      if isMut then pure () else unlockNode a
      descend isMut id fuel child

/-- Return the leave that should contain `id` if present. -/
def findLeave (isMut : Bool) (id : FileId) : Prog (Store D) FsError Addr := do
  lockRoot
  let current ← resolve .root none
  lockNode current
  if isMut then pure () else unlockRoot
  let fuel := (← Prog.get).tree.nextAddr + LBA.addressCount + 1
  descend isMut id fuel current

/-- Unlocks node and all above nodes as well as the root_lock -/
def unlockUpwards : (fuel : ℕ) → Addr → Prog (Store D) ε Unit
  | 0, _ => crash .diverge
  | fuel + 1, a => do
    let node ← deref a
    unlockNode a
    match node.getParent with
    | some parent => unlockUpwards fuel parent
    | none => unlockRoot

/-- `unlockUpwards` with fuel for every node in memory. -/
def unlockAll (a : Addr) : Prog (Store D) ε Unit := do
  unlockUpwards ((← Prog.get).tree.nextAddr + 1) a

def find (id : FileId) : Prog (Store D) FsError (Option FileNode) := do
  let leave ← findLeave false id
  match ← deref leave with
  | .node .. => Prog.panic
  | .leave _ files _ _ =>
    unlockNode leave
    return files.toList.find? fun f => f.id = id

/-! ## Insert -/

/-- Insert the `new_node` that was created by a split at the root level -/
def insertSplitAtRoot (root : Addr) (splitId : FileId) (newNode : MemTreeNode) : Prog (Store D) MemTreeError Unit := do
  assert (← deref root).getParent.isNone
  unlockNode root
  let oldRoot ← expect (← getLink .root).node
  assert (oldRoot = root)
  let right ← allocNode newNode
  let newRoot ← allocNode (.node none (StaticVec.collect [({ node := some oldRoot, devicePtr := none }, some splitId),
     ({ node := some right, devicePtr := none }, none)]) true true false)
  assign oldRoot ((← deref oldRoot).setParent (some newRoot))
  assign right ((← deref right).setParent (some newRoot))
  setLink .root { node := some newRoot, devicePtr := none }
  unlockRoot

/-- Insert the `new_node` that was created by a split in the parent -/
def insertSplit : (fuel : ℕ) → (current oldNode : Addr) → (oldNodeNewMax : FileId) →
    (newNode : MemTreeNode) → (newNodeMax : FileId) → Prog (Store D) MemTreeError Unit
  | 0, _, _, _, _, _ => crash .diverge
  | fuel + 1, current, oldNode, oldNodeNewMax, newNode, newNodeMax => do
    match ← deref current with
    | .leave .. => Prog.panic
    | .node nextParent children _ dirtyChildren lock =>
      let newAddr ← allocNode newNode
      let newLink : MemTreeLink := { node := some newAddr, devicePtr := none }
      let oldPosition ← expect (children.toList.findIdx? fun c => c.1.node = some oldNode)
      let insertPosition := oldPosition + 1
      assert (insertPosition ≤ children.len)
      if children.isNotFull then
        let old ← expect children.toList[oldPosition]?
        let children ← lift (children.setIdx oldPosition (old.1, some oldNodeNewMax))
        let max := if insertPosition ≠ children.len then some newNodeMax else none
        let children ← lift (children.insert insertPosition (newLink, max))
        assign current (.node nextParent children true dirtyChildren lock)
        unlockAll current
      else
        let halfCapacity := children.capacity / 2
        let (left, right) ← lift (children.drain halfCapacity)
        assert (left.len = right.len)
        -- neither the max of the old child nor that of the last one on the left is updated
        let (left, right) ← lift <|
          if insertPosition ≤ halfCapacity then do
            let max := if insertPosition ≠ left.len then some newNodeMax else none
            return (← left.insert insertPosition (newLink, max), right)
          else do
            let position := insertPosition - halfCapacity
            let max := if position ≠ right.len then some newNodeMax else none
            return (left, ← right.insert position (newLink, max))
        let last ← expect left.toList.getLast?
        let splitId ← expect last.2
        assign current (.node nextParent left true dirtyChildren lock)
        let newNode := .node nextParent right true true false
        match nextParent with
        | some parent =>
          unlockNode current
          insertSplit fuel parent current splitId newNode newNodeMax
        | none => insertSplitAtRoot current splitId newNode

/-- The two halves of a full leave, with the new file in its place. -/
def splitFiles (files : Files) (insertPos : ℕ) (file : FileNode) : Checked (Files × Files) := do
  let halfCapacity := files.capacity / 2
  let (left, right) ← files.drain halfCapacity
  if left.len = right.len then
    if insertPos ≤ halfCapacity then return (← left.insert insertPos file, right)
    else return (left, ← right.insert (insertPos - halfCapacity) file)
  else .error .panic

/-- `insert`, from the leave on. -/
def insertInto (leave : Addr) (file : FileNode) (createOnly : Bool) : Prog (Store D) MemTreeError Unit := do
  match ← deref leave with
  | .node .. => Prog.panic
  | .leave parent files _ lock =>
    match files.toList.findIdx? fun f => f.id = file.id with
    | some overridePos =>
      if createOnly then
        unlockAll leave
        Prog.throw (.fileNodeExists file.id)
      else
        let files ← lift (files.setIdx overridePos file)
        assign leave (.leave parent files true lock)
        unlockAll leave
    | none =>
      let insertPos := (files.toList.findIdx? fun f => file.id < f.id).getD files.len
      if files.isNotFull then
        let files ← lift (files.insert insertPos file)
        assign leave (.leave parent files true lock)
        unlockAll leave
      else
        let (left, right) ← lift (splitFiles files insertPos file)
        let splitFile ← expect left.toList.getLast?
        let newNodeMax ← expect right.toList.getLast?
        assign leave (.leave parent left true lock)
        let newNode := .leave parent right true false
        match parent with
        | some p =>
          unlockNode leave
          let fuel := (← Prog.get).tree.nextAddr + 1
          insertSplit fuel p leave splitFile.id newNode newNodeMax.id
        | none => insertSplitAtRoot leave splitFile.id newNode

def insert (file : FileNode) (createOnly : Bool) : Prog (Store D) MemTreeError Unit := do
  let leave ← mapErr MemTreeError.ofFsError (findLeave true file.id)
  insertInto leave file createOnly

/-- insert a new file node into the tree -/
def insertNew (file : FileNode) : Prog (Store D) MemTreeError Unit := insert file true

/-- overrite an existing file node -/
def update (file : FileNode) : Prog (Store D) MemTreeError Unit := insert file false

/-! ## Delete -/

inductive DeleteRebalanceMode where
  | takeFromRight
  | takeFromLeft
  | merge (mergeLeftIndex : ℕ)
  deriving DecidableEq, Repr

/-- The neighbours to rebalance, locked, and the index of the left one in their parent. -/
structure ChildrenForRebalance where
  left : Addr
  right : Addr
  leftIndex : ℕ
  mode : DeleteRebalanceMode
  deriving DecidableEq, Repr

inductive RebalanceVariants where
  | merge (left right : ℕ)
  | takeFromRight
  | takeFromLeft
  deriving DecidableEq, Repr

/-- What to try, in order, and whether to load siblings for it. -/
def toCheck (unbalancedIndex len : ℕ) : List (RebalanceVariants × Bool) :=
  let i := unbalancedIndex
  if i = 0 then
    [(.takeFromRight, false), (.merge i (i + 1), false), (.merge i (i + 1), true), (.takeFromRight, true)]
  else if i = len - 1 then
    [(.takeFromLeft, false), (.merge (i - 1) i, false), (.merge (i - 1) i, true), (.takeFromLeft, true)]
  else
    [(.takeFromRight, false), (.takeFromLeft, false), (.merge (i - 1) i, false),
     (.merge i (i + 1), false), (.merge (i - 1) i, true), (.merge i (i + 1), true),
     (.takeFromRight, true), (.takeFromLeft, true)]

/-- Both nodes of a variant, locked, if they are in memory and the variant fits them. -/
def lockPair (left right : Option Addr) (fits : MemTreeNode → MemTreeNode → Bool) (leftIndex : ℕ)
    (mode : DeleteRebalanceMode) : Prog (Store D) FsError (Option ChildrenForRebalance) :=
  match left, right with
  | some left, some right => do
    if fits (← deref left) (← deref right) then
      lockNode left
      lockNode right
      return some { left, right, leftIndex, mode }
    else return none
  | _, _ => return none

/-- One variant of `get_children_for_rebalance`; `none` to try the next one. -/
def tryVariant (node : Addr) (unbalancedIndex : ℕ) :
    RebalanceVariants → (load : Bool) → Prog (Store D) FsError (Option ChildrenForRebalance)
  | .merge l r, load => do
    if load then
      let _ ← resolve (.child node l) (some node)
      let _ ← resolve (.child node r) (some node)
    let left ← getLink (.child node l)
    let right ← getLink (.child node r)
    lockPair left.node right.node (fun a b => a.len + b.len ≤ a.cap) l (.merge l)
  | .takeFromRight, load => do
    if load then
      let _ ← resolve (.child node (unbalancedIndex + 1)) (some node)
    let left ← getLink (.child node unbalancedIndex)
    let right ← getLink (.child node (unbalancedIndex + 1))
    let left ← expect left.node
    lockPair (some left) right.node (fun _ b => b.len > b.cap / 2) unbalancedIndex .takeFromRight
  | .takeFromLeft, load => do
    if load then
      let _ ← resolve (.child node (unbalancedIndex - 1)) (some node)
    let left ← getLink (.child node (unbalancedIndex - 1))
    let right ← getLink (.child node unbalancedIndex)
    match left.node with
    | none => return none
    | some left =>
      let right ← expect right.node
      lockPair (some left) (some right) (fun a _ => a.len > a.cap / 2) (unbalancedIndex - 1) .takeFromLeft

/-- The first variant that fits. -/
def tryVariants (node : Addr) (unbalancedIndex : ℕ) :
    List (RebalanceVariants × Bool) → Prog (Store D) FsError ChildrenForRebalance
  | [] => Prog.panic
  | (variant, load) :: rest => do
    match ← tryVariant node unbalancedIndex variant load with
    | some r => return r
    | none => tryVariants node unbalancedIndex rest

def getChildrenForRebalance (node unbalanced : Addr) : Prog (Store D) FsError ChildrenForRebalance := do
  match ← deref node with
  | .leave .. => Prog.panic
  | .node parent children _ _ _ =>
    assert (children.len > children.capacity / 2 || parent.isNone)
    assert (2 ≤ children.len)
    let i ← expect (children.toList.findIdx? fun c => c.1.node = some unbalanced)
    tryVariants node i (toCheck i children.len)

/-- `get_children_for_rebalance(..)?` of a caller that holds the guard of `node`: dropping a `Mut`
guard panics. -/
def childrenForRebalance (node unbalanced : Addr) : Prog (Store D) MemTreeError ChildrenForRebalance := do
  match ← attempt (getChildrenForRebalance node unbalanced) with
  | .ok r => return r
  | .error _ => Prog.panic

/-- The merged node takes the place of the left one, and the right one goes; both boxes drop. -/
def replaceMerged (parent : Addr) (r : ChildrenForRebalance) (mergeLeftIndex : ℕ)
    (merged : Addr) (mergedMax : Option FileId) : Prog (Store D) ε Unit := do
  let children ← getChildren parent
  let children ← lift (children.setIdx mergeLeftIndex ({ node := some merged, devicePtr := none }, mergedMax))
  let (_, children) ← lift (children.remove (mergeLeftIndex + 1))
  setChildren parent children
  dropNode r.left
  dropNode r.right

/-- The root is left with one child, which becomes the root. -/
def promoteChild (oldRoot : Addr) : Prog (Store D) ε Unit := do
  let children ← getChildren oldRoot
  assert (children.len = 1)
  let ((newRootLink, max), children) ← lift (children.remove 0)
  setChildren oldRoot children
  assert max.isNone
  let newRoot ← expect newRootLink.node
  lockNode newRoot
  assign newRoot ((← deref newRoot).setParent none)
  unlockNode newRoot
  -- the old root's box drops with its link
  let old ← getLink .root
  setLink .root newRootLink
  match old.node with
  | some a => dropNode a
  | none => pure ()
  unlockRoot

/-- Rebalances the tree using rotation and merges, starting at an inner node -/
def rebalanceNode : (fuel : ℕ) → (unbalanced : Addr) → Prog (Store D) MemTreeError Unit
  | 0, _ => crash .diverge
  | fuel + 1, unbalanced => do
    let node ← deref unbalanced
    match node.getParent with
    | none =>
      if node.len = 1 then promoteChild unbalanced
      else unlockAll unbalanced
    | some parent =>
      unlockNode unbalanced
      let r ← childrenForRebalance parent unbalanced
      match ← deref r.left, ← deref r.right with
      | .node leftParent leftChildren _ leftDc leftLock, .node rightParent rightChildren _ rightDc rightLock =>
        match r.mode with
        | .takeFromRight =>
          let (toMove, rightChildren) ← lift (rightChildren.remove 0)
          assert (rightChildren.len ≥ rightChildren.capacity / 2)
          let leftNewMax ← expect toMove.2
          let leftMax ← expect (← getMax parent r.leftIndex)
          assert (leftMax < leftNewMax)
          setMax parent r.leftIndex (some leftNewMax)
          let leftChildren ← lift (leftChildren.push toMove)
          assign r.left (.node leftParent leftChildren true leftDc leftLock)
          assign r.right (.node rightParent rightChildren true rightDc rightLock)
          unlockNode r.left
          unlockNode r.right
          unlockAll parent
        | .takeFromLeft =>
          let (toMove, leftChildren) ← lift (leftChildren.remove (leftChildren.len - 1))
          assert (leftChildren.len ≥ leftChildren.capacity / 2)
          assert toMove.2.isNone
          let leftMax ← expect (← getMax parent r.leftIndex)
          let newLast ← expect leftChildren.toList.getLast?
          let newLeftMax ← expect newLast.2
          let leftChildren ← lift (leftChildren.setIdx (leftChildren.len - 1) (newLast.1, none))
          setMax parent r.leftIndex (some newLeftMax)
          let rightChildren ← lift (rightChildren.insert 0 (toMove.1, some leftMax))
          assign r.left (.node leftParent leftChildren true leftDc leftLock)
          assign r.right (.node rightParent rightChildren true rightDc rightLock)
          unlockNode r.left
          unlockNode r.right
          unlockAll parent
        | .merge mergeLeftIndex =>
          let merged := (StaticVec.new.extend leftChildren.toList).extend rightChildren.toList
          let mergedMax ← getMax parent (r.leftIndex + 1)
          let new ← allocNode (.node leftParent merged true true false)
          assign r.left (.node leftParent StaticVec.new true leftDc leftLock)
          assign r.right (.node rightParent StaticVec.new true rightDc rightLock)
          unlockNode r.left
          unlockNode r.right
          replaceMerged parent r mergeLeftIndex new mergedMax
          rebalanceNode fuel parent
      | _, _ => Prog.panic

-- the two locked leaves of `rebalance_leave`
variable (parent : Addr) (r : ChildrenForRebalance) (leftParent rightParent : Option Addr)
  (leftFiles rightFiles : Files) (leftLock rightLock : Bool)

/-- `TakeFromRight` of `rebalance_leave` -/
def leaveTakeFromRight : Prog (Store D) MemTreeError Unit := do
  let (toMove, rightFiles) ← lift (rightFiles.remove 0)
  assert (rightFiles.len ≥ rightFiles.capacity / 2)
  let leftMax ← expect (← getMax parent r.leftIndex)
  assert (leftMax < toMove.id)
  setMax parent r.leftIndex (some toMove.id)
  let leftFiles ← lift (leftFiles.push toMove)
  assign r.left (.leave leftParent leftFiles true leftLock)
  assign r.right (.leave rightParent rightFiles true rightLock)
  unlockNode r.left
  unlockNode r.right
  unlockAll parent

/-- `TakeFromLeft` of `rebalance_leave` -/
def leaveTakeFromLeft : Prog (Store D) MemTreeError Unit := do
  let (toMove, leftFiles) ← lift (leftFiles.remove (leftFiles.len - 1))
  assert (leftFiles.len ≥ leftFiles.capacity / 2)
  let last ← expect leftFiles.toList.getLast?
  setMax parent r.leftIndex (some last.id)
  let first ← expect rightFiles.toList.head?
  assert (toMove.id < first.id)
  let rightFiles ← lift (rightFiles.insert 0 toMove)
  assign r.left (.leave leftParent leftFiles true leftLock)
  assign r.right (.leave rightParent rightFiles true rightLock)
  unlockNode r.left
  unlockNode r.right
  unlockAll parent

/-- `Merge` of `rebalance_leave` -/
def leaveMerge (mergeLeftIndex : ℕ) : Prog (Store D) MemTreeError Unit := do
  let merged := leftFiles.extend rightFiles.toList
  let mergedMax ← getMax parent (r.leftIndex + 1)
  let new ← allocNode (.leave leftParent merged true false)
  assign r.left (.leave leftParent leftFiles true leftLock)
  assign r.right (.leave rightParent StaticVec.new true rightLock)
  unlockNode r.left
  unlockNode r.right
  replaceMerged parent r mergeLeftIndex new mergedMax
  rebalanceNode ((← Prog.get).tree.nextAddr + 1) parent

/-- Rebalances the tree using rotation and merges, starting at a leave -/
def rebalanceLeave (unbalanced : Addr) : Prog (Store D) MemTreeError Unit := do
  let parent ← expect (← deref unbalanced).getParent
  unlockNode unbalanced
  let r ← childrenForRebalance parent unbalanced
  match ← deref r.left, ← deref r.right with
  | .leave leftParent leftFiles _ leftLock, .leave rightParent rightFiles _ rightLock =>
    match r.mode with
    | .takeFromRight =>
      leaveTakeFromRight parent r leftParent rightParent leftFiles rightFiles leftLock rightLock
    | .takeFromLeft =>
      leaveTakeFromLeft parent r leftParent rightParent leftFiles rightFiles leftLock rightLock
    | .merge mergeLeftIndex =>
      leaveMerge parent r leftParent rightParent leftFiles rightFiles leftLock rightLock mergeLeftIndex
  | _, _ => Prog.panic

/-- `delete`, from the leave on. -/
def deleteFrom (leave : Addr) (fileId : FileId) : Prog (Store D) MemTreeError FileNode := do
  match ← deref leave with
  | .node .. => Prog.panic
  | .leave parent files _ lock =>
    match files.toList.findIdx? fun f => f.id = fileId with
    | none =>
      unlockAll leave
      Prog.throw (.fileDoesNotExist fileId)
    | some filePos =>
      let (fileNode, files) ← lift (files.remove filePos)
      assign leave (.leave parent files true lock)
      if files.len ≥ files.capacity / 2 || parent.isNone then
        unlockAll leave
        return fileNode
      else
        rebalanceLeave leave
        return fileNode

def delete (fileId : FileId) : Prog (Store D) MemTreeError FileNode := do
  let leave ← mapErr MemTreeError.ofFsError (findLeave true fileId)
  deleteFrom leave fileId
end Store
end WasabiOS
