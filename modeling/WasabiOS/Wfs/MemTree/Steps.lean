import WasabiOS.Wfs.MemTree.Ops

/-!
# Wfs/MemTree/Steps — what one step does to the memory

The weakest precondition of each access to the memory of a tree, in terms of the node it finds and the
state it leaves, and the same for all three ends of a run.  The proofs about the tree operations use
these and never unfold the accesses.
-/

open Machinery Prog
namespace WasabiOS
open Function
variable {parent : Option Addr} {children : Children} {dirty dirtyChildren locked : Bool}

attribute [simp] MemTreeNode.isLocked MemTreeNode.setLock MemTreeNode.setDirty MemTreeNode.len
  MemTreeNode.cap MemTreeNode.getParent MemTreeNode.setParent

namespace Store
variable {D ε : Type} {s : Store D} {a b : Addr} {n : MemTreeNode} {o : Option MemTreeNode} {l : Bool} {k : MemTreeLink}

/-! ## Changed states -/

/-- The state with another node, or none, at an address. -/
def setNode (s : Store D) (a : Addr) (o : Option MemTreeNode) : Store D :=
  { s with tree := { s.tree with nodes := Function.update s.tree.nodes a o } }

/-- The state after a node was put into a new box. -/
def addNode (s : Store D) (n : MemTreeNode) : Store D := { s with tree := { s.tree with
      nodes := Function.update s.tree.nodes s.tree.nextAddr (some n)
      nextAddr := s.tree.nextAddr + 1 } }

def setRootLock (s : Store D) (locked : Bool) : Store D := { s with tree := { s.tree with rootLock := locked } }

def setRoot (s : Store D) (link : MemTreeLink) : Store D := { s with tree := { s.tree with root := link } }

theorem setNode_nodes : (s.setNode a o).tree.nodes b = if b = a then o else s.tree.nodes b := update_apply ..

@[simp] theorem setNode_nodes_self : (s.setNode a o).tree.nodes a = o := update_self ..

theorem setNode_nodes_of_ne (h : b ≠ a) : (s.setNode a o).tree.nodes b = s.tree.nodes b := update_of_ne h ..

@[simp] theorem setNode_setNode_self {o' : Option MemTreeNode} : (s.setNode a o).setNode a o' = s.setNode a o' := by
  simp only [setNode, update_idem]

@[simp] theorem setNode_root : (s.setNode a o).tree.root = s.tree.root := rfl
@[simp] theorem setNode_rootLock : (s.setNode a o).tree.rootLock = s.tree.rootLock := rfl
@[simp] theorem setNode_nextAddr : (s.setNode a o).tree.nextAddr = s.tree.nextAddr := rfl
@[simp] theorem setNode_cells : (s.setNode a o).tree.cells = s.tree.cells := rfl
@[simp] theorem setNode_device : (s.setNode a o).device = s.device := rfl

theorem addNode_nodes : (s.addNode n).tree.nodes b =
    if b = s.tree.nextAddr then some n else s.tree.nodes b := update_apply ..

@[simp] theorem addNode_nodes_self : (s.addNode n).tree.nodes s.tree.nextAddr = some n := update_self ..

theorem addNode_nodes_of_ne (h : b ≠ s.tree.nextAddr) : (s.addNode n).tree.nodes b = s.tree.nodes b := update_of_ne h ..

@[simp] theorem addNode_root : (s.addNode n).tree.root = s.tree.root := rfl
@[simp] theorem addNode_rootLock : (s.addNode n).tree.rootLock = s.tree.rootLock := rfl
@[simp] theorem addNode_nextAddr : (s.addNode n).tree.nextAddr = s.tree.nextAddr + 1 := rfl
@[simp] theorem addNode_device : (s.addNode n).device = s.device := rfl

@[simp] theorem setRootLock_nodes : (s.setRootLock l).tree.nodes = s.tree.nodes := rfl
@[simp] theorem setRootLock_root : (s.setRootLock l).tree.root = s.tree.root := rfl
@[simp] theorem setRootLock_nextAddr : (s.setRootLock l).tree.nextAddr = s.tree.nextAddr := rfl

@[simp] theorem setRoot_nodes : (s.setRoot k).tree.nodes = s.tree.nodes := rfl
@[simp] theorem setRoot_root : (s.setRoot k).tree.root = k := rfl
@[simp] theorem setRoot_device : (s.setRoot k).device = s.device := rfl

/-! ## Nodes -/

variable {Q : Unit → Store D → Prop} {E : ε → Store D → Prop}

theorem wp_modifyTree {f : MemTree → MemTree} :
    (modifyTree f : Prog (Store D) ε Unit).wp Q E s ↔ Q () { s with tree := f s.tree } := Iff.rfl

theorem wp_deref {Q : MemTreeNode → Store D → Prop} :
    (deref a : Prog (Store D) ε _).wp Q E s ↔ ∃ n, s.tree.nodes a = some n ∧ Q n s := by
  simp only [deref, wp_bind, wp_get]
  rcases s.tree.nodes a with _ | n
  · simp
  · simp

theorem wp_assign : (assign a n : Prog (Store D) ε Unit).wp Q E s ↔ Q () (s.setNode a (some n)) := Iff.rfl

theorem wp_dropNode : (dropNode a : Prog (Store D) ε Unit).wp Q E s ↔ Q () (s.setNode a none) := Iff.rfl

theorem wp_allocNode {Q : Addr → Store D → Prop} :
    (allocNode n : Prog (Store D) ε Addr).wp Q E s ↔ Q s.tree.nextAddr (s.addNode n) := Iff.rfl

theorem wp_lockNode : (lockNode a : Prog (Store D) ε Unit).wp Q E s ↔ ∃ n, s.tree.nodes a = some n ∧
      n.isLocked = false ∧ Q () (s.setNode a (some (n.setLock true))) := by
  simp only [lockNode, wp_bind, wp_deref, wp_assert, wp_assign, Bool.not_eq_true']

theorem wp_unlockNode : (unlockNode a : Prog (Store D) ε Unit).wp Q E s ↔ ∃ n, s.tree.nodes a = some n ∧
      n.isLocked = true ∧ Q () (s.setNode a (some (n.setLock false))) := by
  simp only [unlockNode, wp_bind, wp_deref, wp_assert, wp_assign]

theorem wp_lockRoot : (lockRoot : Prog (Store D) ε Unit).wp Q E s ↔
      s.tree.rootLock = false ∧ Q () (s.setRootLock true) := by
  simp only [lockRoot, wp_bind, wp_get, wp_assert, wp_modifyTree, Bool.not_eq_true', setRootLock]

theorem wp_unlockRoot : (unlockRoot : Prog (Store D) ε Unit).wp Q E s ↔
      s.tree.rootLock = true ∧ Q () (s.setRootLock false) := by
  simp only [unlockRoot, wp_bind, wp_get, wp_assert, wp_modifyTree, setRootLock]

/-! ## Links -/

theorem wp_getLink_root {Q : MemTreeLink → Store D → Prop} :
    (getLink .root : Prog (Store D) ε _).wp Q E s ↔ Q s.tree.root s := Iff.rfl

theorem wp_setLink_root {link : MemTreeLink} :
    (setLink .root link : Prog (Store D) ε _).wp Q E s ↔ Q () (s.setRoot link) := Iff.rfl

section Children
variable (h : s.tree.nodes a = some (.node parent children dirty dirtyChildren locked))
include h

theorem wp_getChildren {Q : Children → Store D → Prop} :
    (getChildren a : Prog (Store D) ε _).wp Q E s ↔ Q children s := by
  simp [getChildren, wp_deref, h]

theorem wp_setChildren {children' : Children} : (setChildren a children' : Prog (Store D) ε _).wp Q E s ↔
      Q () (s.setNode a (some (.node parent children' dirty dirtyChildren locked))) := by
  simp [setChildren, wp_deref, h, wp_assign]

theorem wp_getLink_child {i : ℕ} {Q : MemTreeLink → Store D → Prop} :
    (getLink (.child a i) : Prog (Store D) ε _).wp Q E s ↔ ∃ c, children.toList[i]? = some c ∧ Q c.1 s := by
  simp [getLink, wp_getChildren h]

theorem wp_getMax {i : ℕ} {Q : Option FileId → Store D → Prop} : (getMax a i : Prog (Store D) ε _).wp Q E s ↔
      ∃ c, children.toList[i]? = some c ∧ Q c.2 s := by
  simp [getMax, wp_getChildren h]

theorem wp_setLink_child {i : ℕ} {link : MemTreeLink} : (setLink (.child a i) link : Prog (Store D) ε _).wp Q E s ↔
      ∃ c, children.toList[i]? = some c ∧ ∃ children', children.setIdx i (link, c.2) = .ok children' ∧
        Q () (s.setNode a (some (.node parent children' dirty dirtyChildren locked))) := by
  simp [setLink, wp_getChildren h, wp_setChildren h]

theorem wp_setMax {i : ℕ} {max : Option FileId} : (setMax a i max : Prog (Store D) ε _).wp Q E s ↔
      ∃ c, children.toList[i]? = some c ∧ ∃ children', children.setIdx i (c.1, max) = .ok children' ∧
        Q () (s.setNode a (some (.node parent children' dirty dirtyChildren locked))) := by
  simp [setMax, wp_getChildren h, wp_setChildren h]
end Children

/-! ## All three ends -/

variable {F : Prop}

theorem meets_modifyTree {f : MemTree → MemTree} :
    (modifyTree f : Prog (Store D) ε Unit).meets Q E F s ↔ Q () { s with tree := f s.tree } := Iff.rfl

theorem meets_deref {Q : MemTreeNode → Store D → Prop} : (deref a : Prog (Store D) ε _).meets Q E F s ↔
      (∀ n, s.tree.nodes a = some n → Q n s) ∧ (s.tree.nodes a = none → F) := by
  simp only [deref, meets_bind, meets_get]
  rcases s.tree.nodes a with _ | n
  · simp
  · simp

theorem meets_assign : (assign a n : Prog (Store D) ε Unit).meets Q E F s ↔ Q () (s.setNode a (some n)) := Iff.rfl

theorem meets_dropNode : (dropNode a : Prog (Store D) ε Unit).meets Q E F s ↔ Q () (s.setNode a none) := Iff.rfl

theorem meets_allocNode {Q : Addr → Store D → Prop} :
    (allocNode n : Prog (Store D) ε Addr).meets Q E F s ↔ Q s.tree.nextAddr (s.addNode n) := Iff.rfl

theorem meets_lockNode : (lockNode a : Prog (Store D) ε Unit).meets Q E F s ↔ (∀ n, s.tree.nodes a = some n →
        (n.isLocked = false → Q () (s.setNode a (some (n.setLock true)))) ∧ (n.isLocked = true → F)) ∧
      (s.tree.nodes a = none → F) := by
  simp only [lockNode, meets_bind, meets_deref, meets_assert, meets_assign, Bool.not_eq_true', Bool.not_eq_false']

theorem meets_unlockNode : (unlockNode a : Prog (Store D) ε Unit).meets Q E F s ↔ (∀ n, s.tree.nodes a = some n →
        (n.isLocked = true → Q () (s.setNode a (some (n.setLock false)))) ∧ (n.isLocked = false → F)) ∧
      (s.tree.nodes a = none → F) := by
  simp only [unlockNode, meets_bind, meets_deref, meets_assert, meets_assign]

theorem meets_lockRoot : (lockRoot : Prog (Store D) ε Unit).meets Q E F s ↔
      (s.tree.rootLock = false → Q () (s.setRootLock true)) ∧ (s.tree.rootLock = true → F) := by
  simp only [lockRoot, meets_bind, meets_get, meets_assert, meets_modifyTree,
    Bool.not_eq_true', Bool.not_eq_false', setRootLock]

theorem meets_unlockRoot : (unlockRoot : Prog (Store D) ε Unit).meets Q E F s ↔
      (s.tree.rootLock = true → Q () (s.setRootLock false)) ∧ (s.tree.rootLock = false → F) := by
  simp only [unlockRoot, meets_bind, meets_get, meets_assert, meets_modifyTree, setRootLock]

/-- Where a fault says nothing, the node may be of any kind. -/
theorem meets_getChildren_true {Q : Children → Store D → Prop} : (getChildren a : Prog (Store D) ε _).meets Q E True s ↔
      ∀ p cs d dc l, s.tree.nodes a = some (.node p cs d dc l) → Q cs s := by
  simp only [getChildren, meets_bind, meets_deref, implies_true, and_true]
  constructor
  · intro h p cs d dc l hn
    exact h _ hn
  · intro h n hn
    cases n with
    | node p cs d dc l => exact h p cs d dc l hn
    | leave p files d l => trivial

theorem meets_getLink_root {Q : MemTreeLink → Store D → Prop} :
    (getLink .root : Prog (Store D) ε _).meets Q E F s ↔ Q s.tree.root s := Iff.rfl

theorem meets_setLink_root {link : MemTreeLink} :
    (setLink .root link : Prog (Store D) ε _).meets Q E F s ↔ Q () (s.setRoot link) := Iff.rfl

section Children
variable {i : ℕ} (h : s.tree.nodes a = some (.node parent children dirty dirtyChildren locked))
include h

theorem meets_getChildren {Q : Children → Store D → Prop} :
    (getChildren a : Prog (Store D) ε _).meets Q E F s ↔ Q children s := by
  simp [getChildren, meets_deref, h]

theorem meets_setChildren {children' : Children} : (setChildren a children' : Prog (Store D) ε _).meets Q E F s ↔
      Q () (s.setNode a (some (.node parent children' dirty dirtyChildren locked))) := by
  simp [setChildren, meets_deref, h, meets_assign]

theorem meets_getLink_child {Q : MemTreeLink → Store D → Prop} :
    (getLink (.child a i) : Prog (Store D) ε _).meets Q E F s ↔
      (∀ c, children.toList[i]? = some c → Q c.1 s) ∧ (children.toList[i]? = none → F) := by
  simp only [getLink, meets_bind, meets_getChildren h, meets_expect, meets_pure]

theorem meets_setLink_child {link : MemTreeLink} : (setLink (.child a i) link : Prog (Store D) ε _).meets Q E F s ↔
      (∀ c, children.toList[i]? = some c → (∀ children', children.setIdx i (link, c.2) = .ok children' →
          Q () (s.setNode a (some (.node parent children' dirty dirtyChildren locked)))) ∧
        (∀ f, children.setIdx i (link, c.2) = .error f → F)) ∧
      (children.toList[i]? = none → F) := by
  simp only [setLink, meets_bind, meets_getChildren h, meets_expect, meets_lift, meets_setChildren h]
end Children
end Store
end WasabiOS
